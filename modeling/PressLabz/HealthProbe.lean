import PressLabz.EventLoop

/-! # Health probes

`createProbe` of `apps/api/src/health/probe.ts` on the event loop: the operation of `check` is a
promise that settles when it likes, or never; what is derived from it (`attempt`, the release of
the slot, the races of the callers and what they do after) are jobs in the order in which
promises queue them.  Calls of `run`, settlements and timers are events, at any moment, also
between two jobs.  `run` up to its `await` is one event: `check` returns before anything else
happens.
-/
namespace PressLabz
open EventLoop

/-! ## State -/

inductive Status where
  | up
  | down
  deriving DecidableEq

structure ProbeResult where
  status : Status
  timedOut : Option Bool := none
  deriving DecidableEq

/-- How the promise of `check` settles. -/
inductive Settlement where
  | fulfilled
  | rejected
  deriving DecidableEq

/-- What the race of a caller comes to. -/
inductive Outcome where
  | status (s : Status)
  | timeout
  deriving DecidableEq

/-- A promise that has settled: `error` where it rejects. -/
abbrev PromiseResult (α : Type) := Except Unit α

/-- An operation that was begun. -/
structure Operation where
  check : Option Settlement
  /-- `attempt`, which settles in a job of its own. -/
  attempt : Option (PromiseResult Status)
  deriving DecidableEq

/-- A call of `run`. -/
structure ProbeRun where
  /-- The operation that the call awaits. -/
  operation : Nat
  /-- Whether that operation had released the slot already. -/
  afterRelease : Bool
  /-- Whether the timer is set and has not fired. -/
  armed : Bool
  race : Option (PromiseResult Outcome)
  answer : Option (PromiseResult ProbeResult)
  deriving DecidableEq

structure Probe where
  pending : Option Nat
  started : Nat
  operations : List Operation
  /-- The operations that have released the slot. -/
  released : List Nat
  runs : List ProbeRun
  deriving DecidableEq

inductive ProbeJob where
  /-- The callback of `check().then`. -/
  | settle (i : Nat) (how : Settlement)
  /-- The callback of `attempt.finally`. -/
  | release (i : Nat)
  /-- A promise of the race has settled. -/
  | raced (k : Nat) (outcome : PromiseResult Outcome)
  /-- `run` goes on after its `await`. -/
  | resumed (k : Nat) (outcome : PromiseResult Outcome)
  deriving DecidableEq

inductive ProbeEvent where
  | run
  | settled (i : Nat) (how : Settlement)
  | timeout (k : Nat)
  deriving DecidableEq

/-! ## What happens -/

def createProbe : Config Probe ProbeJob := ⟨⟨none, 0, [], [], []⟩, []⟩

/-- `check().then(() => 'up', () => 'down')`. -/
def attemptOf : Settlement → PromiseResult Status
  | .fulfilled => .ok .up
  | .rejected => .ok .down

def raceOf (attempt : PromiseResult Status) : PromiseResult Outcome := attempt.map .status

/-- What `run` makes of the race; a rejection is thrown on. -/
def answerOf : PromiseResult Outcome → PromiseResult ProbeResult
  | .ok .timeout => .ok { status := .down, timedOut := some true }
  | .ok (.status s) => .ok { status := s }
  | .error e => .error e

namespace Probe

/-- `begin`. -/
def begin_ (s : Probe) : Probe :=
  { s with
    started := s.started + 1
    operations := s.operations ++ [⟨none, none⟩]
    pending := some s.operations.length }

/-- A new call, which awaits the operation `i`. -/
def newRun (s : Probe) (i : Nat) : ProbeRun := ⟨i, i ∈ s.released, true, none, none⟩

/-- The race is over at once where `attempt` has settled. -/
def joined (s : Probe) (i : Nat) : List ProbeJob :=
  match (s.operations[i]?).bind Operation.attempt with
  | some attempt => [.raced s.runs.length (raceOf attempt)]
  | none => []

/-- `run`, up to its `await`. -/
def run (s : Probe) : Probe × List ProbeJob :=
  let s' := if s.pending.isNone then s.begin_ else s
  let i := s.pending.getD s.operations.length
  ({ s' with runs := s'.runs ++ [s.newRun i] }, s'.joined i)

/-- An operation from an earlier call has the slot. -/
def inFlight (s : Probe) : Bool := s.pending.isSome

/-- The callers that await an operation. -/
def awaiting (s : Probe) (i : Nat) : List Nat :=
  (List.range s.runs.length).filter fun k => (s.runs[k]?).any fun r => r.operation = i

def perform : ProbeJob → Probe → Probe × List ProbeJob
  | .settle i how, s =>
    ({ s with operations := s.operations.modify i fun o => { o with attempt := attemptOf how } },
      .release i :: (s.awaiting i).map fun k => .raced k (raceOf (attemptOf how)))
  | .release i, s =>
    ({ s with
        pending := if s.pending = some i then none else s.pending
        released := i :: s.released }, [])
  | .raced k outcome, s =>
    -- the first to settle decides
    if (s.runs[k]?).any fun r => r.race.isNone then
      ({ s with runs := s.runs.modify k fun r => { r with race := outcome } }, [.resumed k outcome])
    else (s, [])
  | .resumed k outcome, s =>
    ({ s with
        runs := s.runs.modify k fun r => { r with armed := false, answer := answerOf outcome } }, [])

def happen : ProbeEvent → Probe → Probe × List ProbeJob
  | .run, s => s.run
  | .settled i how, s =>
    if (s.operations[i]?).any fun o => o.check.isNone then
      ({ s with operations := s.operations.modify i fun o => { o with check := how } },
        [.settle i how])
    else (s, [])
  | .timeout k, s =>
    -- a timer that is cleared does not fire
    if (s.runs[k]?).any fun r => r.armed then
      ({ s with runs := s.runs.modify k fun r => { r with armed := false } },
        [.raced k (.ok .timeout)])
    else (s, [])

end Probe

def probe : Program Probe ProbeJob ProbeEvent := ⟨Probe.perform, Probe.happen⟩

/-! ## What is known of a probe -/

namespace Probe
variable (s : Probe)

/-- The operation has not settled. -/
def Outstanding (i : Nat) : Prop := ∃ o, s.operations[i]? = some o ∧ o.check = none

/-- The operation has settled, and how. -/
def SettledAs (i : Nat) (how : Settlement) : Prop :=
  ∃ o, s.operations[i]? = some o ∧ o.check = some how

/-- The `attempt` of an operation has settled, too. -/
def Attempted (i : Nat) : Prop := ∃ o, s.operations[i]? = some o ∧ o.attempt.isSome = true

/-- What a race over an operation may come to. -/
def Fits (i : Nat) (outcome : PromiseResult Outcome) : Prop :=
  outcome = .ok .timeout ∨ ∃ how, s.SettledAs i how ∧ outcome = raceOf (attemptOf how)

/-- What a job in the queue stands for. -/
def Means : ProbeJob → Prop
  | .settle i how => s.SettledAs i how
  | .release i => s.Attempted i
  | .raced k outcome => ∃ r, s.runs[k]? = some r ∧ s.Fits r.operation outcome
  | .resumed k outcome =>
    ∃ r, s.runs[k]? = some r ∧ s.Fits r.operation outcome ∧ r.race.isSome = true

structure Inv (s : Probe) : Prop where
  counted : s.started = s.operations.length
  /-- Only the last operation can hold the slot, as long as it has not released it. -/
  pending : ∀ i, s.pending = some i → i + 1 = s.operations.length ∧ i ∉ s.released
  freed : ∀ i < s.operations.length, s.pending = some i ∨ i ∈ s.released
  released : ∀ i ∈ s.released, s.Attempted i
  attempt : ∀ (i : Nat) (o : Operation) (v : PromiseResult Status), s.operations[i]? = some o →
    o.attempt = some v → ∃ how, o.check = some how ∧ v = attemptOf how
  run : ∀ (k : Nat) (r : ProbeRun), s.runs[k]? = some r →
    r.operation < s.operations.length ∧ r.afterRelease = false
  answer : ∀ (k : Nat) (r : ProbeRun) (a : PromiseResult ProbeResult), s.runs[k]? = some r →
    r.answer = some a → ∃ outcome, s.Fits r.operation outcome ∧ a = answerOf outcome

/-- What no turn undoes: one state follows another. -/
structure Grows (s s' : Probe) : Prop where
  settled : ∀ i how, s.SettledAs i how → s'.SettledAs i how
  attempted : ∀ i, s.Attempted i → s'.Attempted i
  released : ∀ i ∈ s.released, i ∈ s'.released
  runs : ∀ (k : Nat) (r : ProbeRun), s.runs[k]? = some r → ∃ r', s'.runs[k]? = some r' ∧
    r'.operation = r.operation ∧ (r.armed = false → r'.armed = false) ∧
    (r.race.isSome = true → r'.race.isSome = true) ∧
    (r.answer.isSome = true → r'.answer.isSome = true)

variable {s} {s' : Probe}

theorem Grows.refl (s : Probe) : s.Grows s where
  settled _ _ h := h
  attempted _ h := h
  released _ h := h
  runs _ r h := ⟨r, h, rfl, id, id, id⟩

theorem Grows.trans {s'' : Probe} (h : s.Grows s') (h' : s'.Grows s'') : s.Grows s'' where
  settled i how hsettled := h'.settled i how (h.settled i how hsettled)
  attempted i hattempted := h'.attempted i (h.attempted i hattempted)
  released i hi := h'.released i (h.released i hi)
  runs k r hr := by
    obtain ⟨r', hr', hop, harmed, hrace, hanswer⟩ := h.runs k r hr
    obtain ⟨r'', hr'', hop', harmed', hrace', hanswer'⟩ := h'.runs k r' hr'
    exact ⟨r'', hr'', hop'.trans hop, harmed' ∘ harmed, hrace' ∘ hrace, hanswer' ∘ hanswer⟩

theorem Grows.fits (h : s.Grows s') {i : Nat} {outcome : PromiseResult Outcome}
    (hfits : s.Fits i outcome) : s'.Fits i outcome := by
  rcases hfits with rfl | ⟨how, hsettled, rfl⟩
  · exact .inl rfl
  · exact .inr ⟨how, h.settled i how hsettled, rfl⟩

theorem Grows.means (h : s.Grows s') {j : ProbeJob} (hj : s.Means j) : s'.Means j := by
  cases j with
  | settle i how => exact h.settled i how hj
  | release i => exact h.attempted i hj
  | raced k outcome =>
    obtain ⟨r, hr, hfits⟩ := hj
    obtain ⟨r', hr', hop, -⟩ := h.runs k r hr
    exact ⟨r', hr', hop ▸ h.fits hfits⟩
  | resumed k outcome =>
    obtain ⟨r, hr, hfits, hrace⟩ := hj
    obtain ⟨r', hr', hop, -, hrace', -⟩ := h.runs k r hr
    exact ⟨r', hr', hop ▸ h.fits hfits, hrace' hrace⟩

/-! ### What a turn changes -/

theorem getElem?_modify_some {α : Type} {f : α → α} {l : List α} {i j : Nat} {b : α} :
    (l.modify i f)[j]? = some b ↔ ∃ a, l[j]? = some a ∧ b = if i = j then f a else a := by
  rw [List.getElem?_modify, Option.map_eq_map, Option.map_eq_some_iff]
  exact exists_congr fun a => and_congr_right fun _ => eq_comm

/-- A state grows when one run changes, and only forwards. -/
theorem Grows.modify_run {k : Nat} {f : ProbeRun → ProbeRun}
    (hf : ∀ r, (f r).operation = r.operation ∧ (r.armed = false → (f r).armed = false) ∧
      (r.race.isSome = true → (f r).race.isSome = true) ∧
      (r.answer.isSome = true → (f r).answer.isSome = true)) :
    s.Grows { s with runs := s.runs.modify k f } where
  settled _ _ h := h
  attempted _ h := h
  released _ h := h
  runs j r hr := by
    refine ⟨_, getElem?_modify_some.mpr ⟨r, hr, rfl⟩, ?_⟩
    split
    · exact hf r
    · exact ⟨rfl, id, id, id⟩

/-- A state grows when one operation changes, and only forwards. -/
theorem Grows.modify_operation {i : Nat} {f : Operation → Operation}
    (hcheck : ∀ o how, s.operations[i]? = some o → o.check = some how → (f o).check = some how)
    (hattempt : ∀ o, o.attempt.isSome = true → (f o).attempt.isSome = true) :
    s.Grows { s with operations := s.operations.modify i f } where
  settled := by
    rintro j how ⟨o, ho, hhow⟩
    refine ⟨_, getElem?_modify_some.mpr ⟨o, ho, rfl⟩, ?_⟩
    split
    · rename_i hij
      exact hcheck o how (hij ▸ ho) hhow
    · exact hhow
  attempted := by
    rintro j ⟨o, ho, hsome⟩
    refine ⟨_, getElem?_modify_some.mpr ⟨o, ho, rfl⟩, ?_⟩
    split
    · exact hattempt o hsome
    · exact hsome
  released _ h := h
  runs _ r h := ⟨r, h, rfl, id, id, id⟩

theorem grows_perform (j : ProbeJob) (s : Probe) : s.Grows (perform j s).1 := by
  cases j with
  | settle i how => exact .modify_operation (fun _ _ _ h => h) fun _ _ => rfl
  | release i =>
    exact ⟨fun _ _ h => h, fun _ h => h, fun _ h => List.mem_cons_of_mem _ h,
      fun _ r h => ⟨r, h, rfl, id, id, id⟩⟩
  | raced k outcome =>
    rw [perform]
    split
    · exact .modify_run fun r => ⟨rfl, id, fun _ => rfl, id⟩
    · exact .refl s
  | resumed k outcome => exact .modify_run fun r => ⟨rfl, fun _ => rfl, id, fun _ => rfl⟩

theorem run_begins (h : s.pending = none) : s.run =
    ({ s.begin_ with runs := s.runs ++ [s.newRun s.operations.length] }, []) := by
  have hjoined : s.begin_.joined s.operations.length = [] := by
    rw [joined, begin_, List.getElem?_concat_length]
    rfl
  simp only [run, h, Option.isNone_none, if_true, Option.getD_none, hjoined]
  rfl

theorem run_joins {i : Nat} (h : s.pending = some i) :
    s.run = ({ s with runs := s.runs ++ [s.newRun i] }, s.joined i) := by
  simp only [run, h, Option.isNone_some, Bool.false_eq_true, if_false, Option.getD_some]

theorem getElem?_append_some {α : Type} {l t : List α} {i : Nat} {a : α} (h : l[i]? = some a) :
    (l ++ t)[i]? = some a := by
  rw [List.getElem?_append_left (List.getElem?_eq_some_iff.mp h).1, h]

theorem grows_run (s : Probe) : s.Grows s.run.1 := by
  cases h : s.pending with
  | none =>
    rw [run_begins h]
    constructor
    · rintro i how ⟨o, ho, hhow⟩
      exact ⟨o, getElem?_append_some ho, hhow⟩
    · rintro i ⟨o, ho, hsome⟩
      exact ⟨o, getElem?_append_some ho, hsome⟩
    · exact fun _ h => h
    · exact fun _ r h => ⟨r, getElem?_append_some h, rfl, id, id, id⟩
  | some i =>
    rw [run_joins h]
    exact ⟨fun _ _ h => h, fun _ h => h, fun _ h => h,
      fun _ r h => ⟨r, getElem?_append_some h, rfl, id, id, id⟩⟩

theorem grows_happen (e : ProbeEvent) (s : Probe) : s.Grows (happen e s).1 := by
  cases e with
  | run => exact grows_run s
  | settled i how =>
    rw [happen]
    split
    · rename_i hnone
      refine .modify_operation (fun o how' ho hhow => ?_) fun _ h => h
      simp [ho, hhow] at hnone
    · exact .refl s
  | timeout k =>
    rw [happen]
    split
    · exact .modify_run fun r => ⟨rfl, fun _ => rfl, id, id⟩
    · exact .refl s

/-! ### The invariant -/

theorem inv_start : createProbe.state.Inv where
  counted := rfl
  pending _ h := nomatch h
  freed _ h := nomatch h
  released _ h := nomatch h
  attempt _ _ _ h := nomatch h
  run _ _ h := nomatch h
  answer _ _ _ h := nomatch h

/-- The invariant survives a change of one call that keeps to what its race may come to. -/
theorem Inv.modify_run (h : s.Inv) {k : Nat} {f : ProbeRun → ProbeRun}
    (hf : ∀ r, (f r).operation = r.operation ∧ (f r).afterRelease = r.afterRelease)
    (hanswer : ∀ r a, s.runs[k]? = some r → (f r).answer = some a → r.answer = some a ∨
      ∃ outcome, s.Fits r.operation outcome ∧ a = answerOf outcome) :
    Inv { s with runs := s.runs.modify k f } where
  counted := h.counted
  pending := h.pending
  freed := h.freed
  released := h.released
  attempt := h.attempt
  run := by
    intro j r hr
    obtain ⟨old, hold, rfl⟩ := getElem?_modify_some.mp hr
    split
    · rw [(hf old).1, (hf old).2]
      exact h.run j old hold
    · exact h.run j old hold
  answer := by
    intro j r a hr ha
    obtain ⟨old, hold, rfl⟩ := getElem?_modify_some.mp hr
    split at ha
    · rename_i hkj
      subst hkj
      rw [if_pos rfl, (hf old).1]
      rcases hanswer old a hold ha with ha | ⟨outcome, hfits, rfl⟩
      · exact h.answer k old a hold ha
      · exact ⟨outcome, hfits, rfl⟩
    · rename_i hkj
      rw [if_neg hkj]
      exact h.answer j old a hold ha

theorem Inv.modify_operation (h : s.Inv) {i : Nat} {f : Operation → Operation}
    (hgrows : s.Grows { s with operations := s.operations.modify i f })
    (hattempt : ∀ o v, s.operations[i]? = some o → (f o).attempt = some v →
      ∃ how, (f o).check = some how ∧ v = attemptOf how) :
    Inv { s with operations := s.operations.modify i f } := by
  have hlength : (s.operations.modify i f).length = s.operations.length := List.length_modify ..
  refine ⟨?_, ?_, ?_, fun i hi => hgrows.attempted i (h.released i hi), ?_, ?_, ?_⟩
  · exact h.counted.trans hlength.symm
  · simpa only [hlength] using h.pending
  · simpa only [hlength] using h.freed
  · intro j o v ho hv
    obtain ⟨old, hold, rfl⟩ := getElem?_modify_some.mp ho
    by_cases hij : i = j
    · subst hij
      rw [if_pos rfl] at hv ⊢
      exact hattempt old v hold hv
    · rw [if_neg hij] at hv ⊢
      exact h.attempt j old v hold hv
  · simpa only [hlength] using h.run
  · intro k r a hr ha
    obtain ⟨outcome, hfits, rfl⟩ := h.answer k r a hr ha
    exact ⟨outcome, hgrows.fits hfits, rfl⟩

/-- A release empties the slot only where its operation still has it. -/
theorem Inv.release (h : s.Inv) {i : Nat} (hi : s.Attempted i) :
    (Probe.perform (.release i) s).1.Inv := by
  refine { h with pending := ?_, freed := ?_, released := ?_ }
  · intro j hpending
    rw [Probe.perform] at hpending
    split at hpending
    · cases hpending
    · rename_i hne
      obtain ⟨hlast, hnot⟩ := h.pending j hpending
      refine ⟨hlast, fun hmem => ?_⟩
      rcases List.mem_cons.mp hmem with rfl | hmem
      · exact hne hpending
      · exact hnot hmem
  · intro j hlt
    by_cases hji : j = i
    · exact .inr (hji ▸ List.mem_cons_self)
    · rcases h.freed j hlt with hpending | hfreed
      · refine .inl ?_
        rw [Probe.perform, if_neg (fun h => hji (Option.some.inj (hpending.symm.trans h)))]
        exact hpending
      · exact .inr (List.mem_cons_of_mem _ hfreed)
  · intro j hmem
    rcases List.mem_cons.mp hmem with rfl | hmem
    · exact hi
    · exact h.released j hmem

theorem Inv.perform (h : s.Inv) {j : ProbeJob} (hj : s.Means j) : (perform j s).1.Inv := by
  cases j with
  | settle i how =>
    refine h.modify_operation (grows_perform (.settle i how) s) fun o v ho hv => ?_
    obtain ⟨o', ho', hcheck⟩ := hj
    obtain rfl := Option.some.inj (ho.symm.trans ho')
    exact ⟨how, hcheck, (Option.some.inj hv).symm⟩
  | release i => exact h.release hj
  | raced k outcome =>
    rw [Probe.perform]
    split
    · exact h.modify_run (fun r => ⟨rfl, rfl⟩) fun r a _ ha => .inl ha
    · exact h
  | resumed k outcome =>
    -- the answer is what the race was decided by, as the job says
    refine h.modify_run (fun r => ⟨rfl, rfl⟩) fun r a hr ha => .inr ?_
    obtain ⟨r', hr', hfits, -⟩ := hj
    obtain rfl := Option.some.inj (hr.symm.trans hr')
    exact ⟨outcome, hfits, (Option.some.inj ha).symm⟩

/-- No operation that is still to come has released the slot. -/
theorem Inv.not_released (h : s.Inv) : s.operations.length ∉ s.released := by
  intro hmem
  obtain ⟨o, ho, -⟩ := h.released _ hmem
  rw [List.getElem?_eq_none (Nat.le_refl _)] at ho
  cases ho

/-- The invariant survives one more call, of an operation that has the slot. -/
theorem Inv.add_run (h : s.Inv) {i : Nat} (hlt : i < s.operations.length)
    (hnot : i ∉ s.released) : Inv { s with runs := s.runs ++ [s.newRun i] } where
  counted := h.counted
  pending := h.pending
  freed := h.freed
  released := h.released
  attempt := h.attempt
  run := by
    intro k r hr
    rw [List.getElem?_append] at hr
    split at hr
    · exact h.run k r hr
    · obtain rfl := List.mem_singleton.mp (List.mem_of_getElem? hr)
      exact ⟨hlt, decide_eq_false hnot⟩
  answer := by
    intro k r a hr ha
    rw [List.getElem?_append] at hr
    split at hr
    · exact h.answer k r a hr ha
    · obtain rfl := List.mem_singleton.mp (List.mem_of_getElem? hr)
      cases ha

theorem Inv.begin_ (h : s.Inv) (hnone : s.pending = none) : s.begin_.Inv := by
  have hlength : s.begin_.operations.length = s.operations.length + 1 := List.length_append
  refine ⟨?_, ?_, ?_, ?_, ?_, ?_, ?_⟩
  · rw [hlength, ← h.counted]
    rfl
  · intro i hpending
    obtain rfl := Option.some.inj hpending
    exact ⟨hlength.symm, h.not_released⟩
  · -- the slot was free, so every operation before this one has released it
    intro i hlt
    rw [hlength] at hlt
    rcases Nat.lt_succ_iff_lt_or_eq.mp hlt with hlt | rfl
    · refine .inr ((h.freed i hlt).resolve_left ?_)
      rw [hnone]
      exact nofun
    · exact .inl rfl
  · intro i hi
    obtain ⟨o, ho, hsome⟩ := h.released i hi
    exact ⟨o, getElem?_append_some ho, hsome⟩
  · intro i o v ho hv
    rw [Probe.begin_, List.getElem?_append] at ho
    split at ho
    · exact h.attempt i o v ho hv
    · obtain rfl := List.mem_singleton.mp (List.mem_of_getElem? ho)
      cases hv
  · intro k r hr
    obtain ⟨hlt, hfresh⟩ := h.run k r hr
    exact ⟨hlength ▸ Nat.lt_succ_of_lt hlt, hfresh⟩
  · intro k r a hr ha
    obtain ⟨outcome, hfits, rfl⟩ := h.answer k r a hr ha
    refine ⟨outcome, ?_, rfl⟩
    rcases hfits with rfl | ⟨how, ⟨o, ho, hhow⟩, rfl⟩
    · exact .inl rfl
    · exact .inr ⟨how, ⟨o, getElem?_append_some ho, hhow⟩, rfl⟩

theorem Inv.happen (h : s.Inv) (e : ProbeEvent) : (happen e s).1.Inv := by
  cases e with
  | run =>
    rw [Probe.happen]
    cases hpending : s.pending with
    | none =>
      rw [run_begins hpending]
      have hlength : s.begin_.operations.length = s.operations.length + 1 := List.length_append
      exact (h.begin_ hpending).add_run (hlength ▸ Nat.lt_succ_self _) h.not_released
    | some i =>
      rw [run_joins hpending]
      obtain ⟨hlast, hnot⟩ := h.pending i hpending
      exact h.add_run (by omega) hnot
  | settled i how =>
    have hgrows := grows_happen (.settled i how) s
    rw [Probe.happen] at hgrows ⊢
    by_cases hopen : (s.operations[i]?).any (fun o => o.check.isNone) = true
    · rw [if_pos hopen] at hgrows ⊢
      refine h.modify_operation hgrows fun o v ho hv => ?_
      -- what has settled `attempt` has settled `check` before
      obtain ⟨how', hcheck, -⟩ := h.attempt i o v ho hv
      simp [ho, hcheck] at hopen
    · rw [if_neg hopen]
      exact h
  | timeout k =>
    rw [Probe.happen]
    split
    · exact h.modify_run (fun r => ⟨rfl, rfl⟩) fun r a _ ha => .inl ha
    · exact h

end Probe

/-! ## The queue -/

/-- Every job has a meaning, and whatever is due is queued. -/
structure Queued (c : Config Probe ProbeJob) : Prop where
  inv : c.state.Inv
  means : ∀ j ∈ c.jobs, c.state.Means j
  settle : ∀ (i : Nat) (o : Operation) (how : Settlement), c.state.operations[i]? = some o →
    o.check = some how → o.attempt = none → .settle i how ∈ c.jobs
  release : ∀ i, c.state.Attempted i → i ∉ c.state.released → .release i ∈ c.jobs
  race : ∀ (k : Nat) (r : ProbeRun), c.state.runs[k]? = some r → r.race = none →
    r.armed = false → ∃ outcome, .raced k outcome ∈ c.jobs
  resume : ∀ (k : Nat) (r : ProbeRun) (outcome : PromiseResult Outcome), c.state.runs[k]? = some r →
    r.race = some outcome → r.answer = none → .resumed k outcome ∈ c.jobs

namespace Queued
variable {s : Probe} {j : ProbeJob} {rest jobs : List ProbeJob} {e : ProbeEvent}

theorem start : Queued createProbe where
  inv := Probe.inv_start
  means _ h := nomatch h
  settle _ _ _ h := nomatch h
  release _ h := by
    obtain ⟨o, ho, -⟩ := h
    cases ho
  race _ _ h := nomatch h
  resume _ _ _ h := nomatch h

theorem means_perform (h : Queued ⟨s, j :: rest⟩) :
    ∀ job ∈ (Probe.perform j s).2, (Probe.perform j s).1.Means job := by
  have hj := h.means j List.mem_cons_self
  have hgrows := Probe.grows_perform j s
  cases j with
  | settle i how =>
    intro job hjob
    rcases List.mem_cons.mp hjob with rfl | hjob
    · obtain ⟨o, ho, -⟩ := hj
      exact ⟨_, Probe.getElem?_modify_some.mpr ⟨o, ho, (if_pos rfl).symm⟩, rfl⟩
    · obtain ⟨k, hk, rfl⟩ := List.mem_map.mp hjob
      obtain ⟨-, hawait⟩ := List.mem_filter.mp hk
      obtain ⟨r, hr, hop⟩ := (Option.any_eq_true _ _).mp hawait
      exact ⟨r, hr, .inr ⟨how, (decide_eq_true_eq.mp hop) ▸ hgrows.settled i how hj, rfl⟩⟩
  | release i => exact fun job hjob => nomatch hjob
  | raced k outcome =>
    obtain ⟨r, hr, hfits⟩ := hj
    rw [Probe.perform] at hgrows ⊢
    split
    · rename_i hopen
      rw [if_pos hopen] at hgrows
      intro job hjob
      obtain rfl := List.mem_singleton.mp hjob
      exact ⟨_, Probe.getElem?_modify_some.mpr ⟨r, hr, (if_pos rfl).symm⟩, hgrows.fits hfits, rfl⟩
    · exact fun job hjob => nomatch hjob
  | resumed k outcome => exact fun job hjob => nomatch hjob

theorem means_happen (h : Queued ⟨s, jobs⟩) :
    ∀ job ∈ (Probe.happen e s).2, (Probe.happen e s).1.Means job := by
  cases e with
  | run =>
    rw [Probe.happen]
    cases hpending : s.pending with
    | none =>
      rw [Probe.run_begins hpending]
      exact fun job hjob => nomatch hjob
    | some i =>
      rw [Probe.run_joins hpending, Probe.joined]
      split
      · -- the race is decided at once when the operation has ended
        rename_i attempt hattempt
        obtain ⟨o, ho, hattempt⟩ := Option.bind_eq_some_iff.mp hattempt
        obtain ⟨how, hcheck, rfl⟩ := h.inv.attempt i o attempt ho hattempt
        intro job hjob
        obtain rfl := List.mem_singleton.mp hjob
        exact ⟨s.newRun i, List.getElem?_concat_length, .inr ⟨how, ⟨o, ho, hcheck⟩, rfl⟩⟩
      · exact fun job hjob => nomatch hjob
  | settled i how =>
    rw [Probe.happen]
    split
    · rename_i hopen
      obtain ⟨o, ho, -⟩ := (Option.any_eq_true _ _).mp hopen
      intro job hjob
      obtain rfl := List.mem_singleton.mp hjob
      exact ⟨_, Probe.getElem?_modify_some.mpr ⟨o, ho, (if_pos rfl).symm⟩, rfl⟩
    · exact fun job hjob => nomatch hjob
  | timeout k =>
    rw [Probe.happen]
    split
    · rename_i harmed
      obtain ⟨r, hr, -⟩ := (Option.any_eq_true _ _).mp harmed
      intro job hjob
      obtain rfl := List.mem_singleton.mp hjob
      exact ⟨_, Probe.getElem?_modify_some.mpr ⟨r, hr, (if_pos rfl).symm⟩, .inl rfl⟩
    · exact fun job hjob => nomatch hjob

/-- A job that is not the first is queued still. -/
theorem mem_rest {job : ProbeJob} (h : job ∈ j :: rest) (hne : job ≠ j) (new : List ProbeJob) :
    job ∈ rest ++ new :=
  List.mem_append_left new ((List.mem_cons.mp h).resolve_left hne)

/-- Only a job that settles an operation changes the operations. -/
theorem perform_operations (hj : ∀ i how, j ≠ .settle i how) :
    (Probe.perform j s).1.operations = s.operations := by
  cases j with
  | settle i how => exact absurd rfl (hj i how)
  | release i => rfl
  | raced k outcome =>
    rw [Probe.perform]
    split
    · rfl
    · rfl
  | resumed k outcome => rfl

theorem perform_released (hj : ∀ i, j ≠ .release i) :
    (Probe.perform j s).1.released = s.released := by
  cases j with
  | settle i how => rfl
  | release i => exact absurd rfl (hj i)
  | raced k outcome =>
    rw [Probe.perform]
    split
    · rfl
    · rfl
  | resumed k outcome => rfl

theorem settle_perform (h : Queued ⟨s, j :: rest⟩) {i : Nat} {o : Operation} {how : Settlement}
    (ho : (Probe.perform j s).1.operations[i]? = some o) (hcheck : o.check = some how)
    (hnone : o.attempt = none) : .settle i how ∈ rest ++ (Probe.perform j s).2 := by
  by_cases hj : ∃ i' how', j = .settle i' how'
  · obtain ⟨i', how', rfl⟩ := hj
    obtain ⟨old, hold, rfl⟩ := Probe.getElem?_modify_some.mp ho
    by_cases hi : i' = i
    · rw [if_pos hi] at hnone
      cases hnone
    · rw [if_neg hi] at hcheck hnone
      refine mem_rest (h.settle i old how hold hcheck hnone) ?_ _
      rintro ⟨⟩
      exact hi rfl
  · have hj : ∀ i' how', j ≠ .settle i' how' := fun i' how' heq => hj ⟨i', how', heq⟩
    rw [perform_operations hj] at ho
    exact mem_rest (h.settle i o how ho hcheck hnone) (hj i how).symm _

theorem release_perform (h : Queued ⟨s, j :: rest⟩) {i : Nat}
    (hattempted : (Probe.perform j s).1.Attempted i)
    (hnot : i ∉ (Probe.perform j s).1.released) :
    .release i ∈ rest ++ (Probe.perform j s).2 := by
  cases j with
  | settle i' how =>
    by_cases hi : i = i'
    · exact List.mem_append_right rest (hi ▸ List.mem_cons_self)
    · obtain ⟨o, ho, hsome⟩ := hattempted
      obtain ⟨old, hold, rfl⟩ := Probe.getElem?_modify_some.mp ho
      rw [if_neg (Ne.symm hi)] at hsome
      exact mem_rest (h.release i ⟨old, hold, hsome⟩ hnot) nofun _
  | release i' =>
    have hne : i ≠ i' := fun heq => hnot (heq ▸ List.mem_cons_self)
    refine mem_rest (h.release i hattempted fun hmem => hnot (List.mem_cons_of_mem _ hmem)) ?_ _
    rintro ⟨⟩
    exact hne rfl
  | raced k outcome =>
    rw [perform_released (j := .raced k outcome) nofun] at hnot
    rw [Probe.Attempted, perform_operations (j := .raced k outcome) nofun] at hattempted
    exact mem_rest (h.release i hattempted hnot) nofun _
  | resumed k outcome => exact mem_rest (h.release i hattempted hnot) nofun _

theorem race_perform (h : Queued ⟨s, j :: rest⟩) {k : Nat} {r : ProbeRun}
    (hr : (Probe.perform j s).1.runs[k]? = some r) (hrace : r.race = none)
    (harmed : r.armed = false) : ∃ outcome, .raced k outcome ∈ rest ++ (Probe.perform j s).2 := by
  cases j with
  | settle i how =>
    obtain ⟨outcome, hmem⟩ := h.race k r hr hrace harmed
    exact ⟨outcome, mem_rest hmem nofun _⟩
  | release i =>
    obtain ⟨outcome, hmem⟩ := h.race k r hr hrace harmed
    exact ⟨outcome, mem_rest hmem nofun _⟩
  | raced k' outcome' =>
    -- the race of `k'` is decided by now
    have hold : s.runs[k]? = some r ∧ k ≠ k' := by
      rw [Probe.perform] at hr
      by_cases hopen : (s.runs[k']?).any (fun r => r.race.isNone) = true
      · rw [if_pos hopen] at hr
        obtain ⟨old, hold, rfl⟩ := Probe.getElem?_modify_some.mp hr
        by_cases hk : k' = k
        · rw [if_pos hk] at hrace
          cases hrace
        · rw [if_neg hk]
          exact ⟨hold, Ne.symm hk⟩
      · rw [if_neg hopen] at hr
        refine ⟨hr, ?_⟩
        rintro rfl
        simp [hr, hrace] at hopen
    obtain ⟨outcome, hmem⟩ := h.race k r hold.1 hrace harmed
    refine ⟨outcome, mem_rest hmem ?_ _⟩
    rintro ⟨⟩
    exact hold.2 rfl
  | resumed k' outcome' =>
    obtain ⟨old, hold, rfl⟩ := Probe.getElem?_modify_some.mp hr
    by_cases hk : k' = k
    · obtain ⟨r', hr', -, hsome⟩ := h.means _ List.mem_cons_self
      obtain rfl := Option.some.inj (hold.symm.trans (hk ▸ hr'))
      rw [if_pos hk] at hrace
      simp only at hrace
      rw [hrace] at hsome
      cases hsome
    · rw [if_neg hk] at hrace harmed
      obtain ⟨outcome, hmem⟩ := h.race k old hold hrace harmed
      exact ⟨outcome, mem_rest hmem nofun _⟩

theorem resume_perform (h : Queued ⟨s, j :: rest⟩) {k : Nat} {r : ProbeRun}
    {outcome : PromiseResult Outcome} (hr : (Probe.perform j s).1.runs[k]? = some r)
    (hrace : r.race = some outcome) (hanswer : r.answer = none) :
    .resumed k outcome ∈ rest ++ (Probe.perform j s).2 := by
  cases j with
  | settle i how => exact mem_rest (h.resume k r outcome hr hrace hanswer) nofun _
  | release i => exact mem_rest (h.resume k r outcome hr hrace hanswer) nofun _
  | raced k' outcome' =>
    rw [Probe.perform] at hr ⊢
    by_cases hopen : (s.runs[k']?).any (fun r => r.race.isNone) = true
    · rw [if_pos hopen] at hr ⊢
      obtain ⟨old, hold, rfl⟩ := Probe.getElem?_modify_some.mp hr
      by_cases hk : k' = k
      · rw [if_pos hk] at hrace
        cases hrace
        exact List.mem_append_right rest (hk ▸ List.mem_singleton_self _)
      · rw [if_neg hk] at hrace hanswer
        exact mem_rest (h.resume k old outcome hold hrace hanswer) nofun _
    · rw [if_neg hopen] at hr ⊢
      exact mem_rest (h.resume k r outcome hr hrace hanswer) nofun _
  | resumed k' outcome' =>
    obtain ⟨old, hold, rfl⟩ := Probe.getElem?_modify_some.mp hr
    by_cases hk : k' = k
    · rw [if_pos hk] at hanswer
      cases hanswer
    · rw [if_neg hk] at hrace hanswer
      refine mem_rest (h.resume k old outcome hold hrace hanswer) ?_ _
      rintro ⟨⟩
      exact hk rfl

theorem perform (h : Queued ⟨s, j :: rest⟩) :
    Queued ⟨(Probe.perform j s).1, rest ++ (Probe.perform j s).2⟩ where
  inv := h.inv.perform (h.means j List.mem_cons_self)
  means := by
    intro job hjob
    rcases List.mem_append.mp hjob with hjob | hjob
    · exact (Probe.grows_perform j s).means (h.means job (List.mem_cons_of_mem _ hjob))
    · exact h.means_perform job hjob
  settle _ _ _ := h.settle_perform
  release _ := h.release_perform
  race _ _ := h.race_perform
  resume _ _ _ := h.resume_perform

/-- An entry of a list with one more is an entry of the list or the new one. -/
theorem getElem?_concat_some {α : Type} {l : List α} {a b : α} {i : Nat}
    (h : (l ++ [a])[i]? = some b) : l[i]? = some b ∨ b = a := by
  rw [List.getElem?_append] at h
  split at h
  · exact .inl h
  · exact .inr (List.mem_singleton.mp (List.mem_of_getElem? h))

theorem run_operations {i : Nat} {o : Operation} (ho : s.run.1.operations[i]? = some o) :
    s.operations[i]? = some o ∨ o = ⟨none, none⟩ := by
  cases hpending : s.pending with
  | none =>
    rw [Probe.run_begins hpending] at ho
    exact getElem?_concat_some ho
  | some i =>
    rw [Probe.run_joins hpending] at ho
    exact .inl ho

theorem run_runs {k : Nat} {r : ProbeRun} (hr : s.run.1.runs[k]? = some r) :
    s.runs[k]? = some r ∨ r.armed = true ∧ r.race = none := by
  have hnew : ∃ i, s.run.1.runs = s.runs ++ [s.newRun i] := by
    cases hpending : s.pending with
    | none => exact ⟨_, by rw [Probe.run_begins hpending]⟩
    | some i => exact ⟨i, by rw [Probe.run_joins hpending]⟩
  obtain ⟨i, hnew⟩ := hnew
  rw [hnew] at hr
  rcases getElem?_concat_some hr with hr | rfl
  · exact .inl hr
  · exact .inr ⟨rfl, rfl⟩

theorem run_released (s : Probe) : s.run.1.released = s.released := by
  cases hpending : s.pending with
  | none =>
    rw [Probe.run_begins hpending]
    rfl
  | some i => rw [Probe.run_joins hpending]

/-- What is queued keeps its meaning, and what an event queues has one. -/
theorem happen_means (h : Queued ⟨s, jobs⟩) (e : ProbeEvent) :
    ∀ job ∈ jobs ++ (Probe.happen e s).2, (Probe.happen e s).1.Means job := by
  intro job hjob
  rcases List.mem_append.mp hjob with hjob | hjob
  · exact (Probe.grows_happen e s).means (h.means job hjob)
  · exact h.means_happen job hjob

/-- A call of `run` makes nothing due. -/
theorem happen_run (h : Queued ⟨s, jobs⟩) :
    Queued ⟨(Probe.happen .run s).1, jobs ++ (Probe.happen .run s).2⟩ where
  inv := h.inv.happen .run
  means := h.happen_means .run
  settle := by
    intro i o how ho hcheck hnone
    rcases run_operations ho with ho | rfl
    · exact List.mem_append_left _ (h.settle i o how ho hcheck hnone)
    · cases hcheck
  release := by
    rintro i ⟨o, ho, hsome⟩ hnot
    rw [Probe.happen, run_released] at hnot
    rcases run_operations ho with ho | rfl
    · exact List.mem_append_left _ (h.release i ⟨o, ho, hsome⟩ hnot)
    · cases hsome
  race := by
    intro k r hr hrace harmed
    rcases run_runs hr with hr | ⟨htrue, -⟩
    · obtain ⟨outcome, hmem⟩ := h.race k r hr hrace harmed
      exact ⟨outcome, List.mem_append_left _ hmem⟩
    · rw [htrue] at harmed
      cases harmed
  resume := by
    intro k r outcome hr hrace hanswer
    rcases run_runs hr with hr | ⟨-, hnone⟩
    · exact List.mem_append_left _ (h.resume k r outcome hr hrace hanswer)
    · rw [hnone] at hrace
      cases hrace

/-- A check that settles makes its own operation due, and queues it. -/
theorem happen_settled (h : Queued ⟨s, jobs⟩) (i : Nat) (how : Settlement) :
    Queued ⟨(Probe.happen (.settled i how) s).1, jobs ++ (Probe.happen (.settled i how) s).2⟩ := by
  have hinv := h.inv.happen (.settled i how)
  have hmeans := h.happen_means (.settled i how)
  rw [Probe.happen] at hinv hmeans ⊢
  by_cases hopen : (s.operations[i]?).any (fun o => o.check.isNone) = true
  · rw [if_pos hopen] at hinv hmeans ⊢
    refine ⟨hinv, hmeans, ?_, ?_, ?_, ?_⟩
    · intro j o how' ho hcheck hnone
      obtain ⟨old, hold, rfl⟩ := Probe.getElem?_modify_some.mp ho
      by_cases hij : i = j
      · rw [if_pos hij] at hcheck
        cases hcheck
        exact List.mem_append_right jobs (hij ▸ List.mem_singleton_self _)
      · rw [if_neg hij] at hcheck hnone
        exact List.mem_append_left _ (h.settle j old how' hold hcheck hnone)
    · rintro j ⟨o, ho, hsome⟩ hnot
      obtain ⟨old, hold, rfl⟩ := Probe.getElem?_modify_some.mp ho
      refine List.mem_append_left _ (h.release j ⟨old, hold, ?_⟩ hnot)
      by_cases hij : i = j
      · rwa [if_pos hij] at hsome
      · rwa [if_neg hij] at hsome
    · intro k r hr hrace harmed
      obtain ⟨outcome, hmem⟩ := h.race k r hr hrace harmed
      exact ⟨outcome, List.mem_append_left _ hmem⟩
    · exact fun k r outcome hr hrace hanswer =>
        List.mem_append_left _ (h.resume k r outcome hr hrace hanswer)
  · rw [if_neg hopen, List.append_nil]
    exact h

/-- A timer that goes off makes a race due, and queues it. -/
theorem happen_timeout (h : Queued ⟨s, jobs⟩) (k : Nat) :
    Queued ⟨(Probe.happen (.timeout k) s).1, jobs ++ (Probe.happen (.timeout k) s).2⟩ := by
  have hinv := h.inv.happen (.timeout k)
  have hmeans := h.happen_means (.timeout k)
  rw [Probe.happen] at hinv hmeans ⊢
  by_cases hopen : (s.runs[k]?).any (fun r => r.armed) = true
  · rw [if_pos hopen] at hinv hmeans ⊢
    refine ⟨hinv, hmeans, ?_, ?_, ?_, ?_⟩
    · exact fun i o how ho hcheck hnone =>
        List.mem_append_left _ (h.settle i o how ho hcheck hnone)
    · exact fun i hattempted hnot => List.mem_append_left _ (h.release i hattempted hnot)
    · intro k' r hr hrace harmed
      obtain ⟨old, hold, rfl⟩ := Probe.getElem?_modify_some.mp hr
      by_cases hk : k = k'
      · exact ⟨.ok .timeout, List.mem_append_right jobs (hk ▸ List.mem_singleton_self _)⟩
      · rw [if_neg hk] at hrace harmed
        obtain ⟨outcome, hmem⟩ := h.race k' old hold hrace harmed
        exact ⟨outcome, List.mem_append_left _ hmem⟩
    · intro k' r outcome hr hrace hanswer
      obtain ⟨old, hold, rfl⟩ := Probe.getElem?_modify_some.mp hr
      refine List.mem_append_left _ (h.resume k' old outcome hold ?_ ?_)
      · by_cases hk : k = k'
        · rwa [if_pos hk] at hrace
        · rwa [if_neg hk] at hrace
      · by_cases hk : k = k'
        · rwa [if_pos hk] at hanswer
        · rwa [if_neg hk] at hanswer
  · rw [if_neg hopen, List.append_nil]
    exact h

theorem always (turns : Nat → Turn ProbeEvent) (n : Nat) :
    Queued (config probe createProbe turns n) := by
  refine invariant start (fun s j rest h => h.perform) (fun c e h => ?_) n
  cases e with
  | run => exact h.happen_run
  | settled i how => exact h.happen_settled i how
  | timeout k => exact h.happen_timeout k

end Queued

/-! ## In the long run -/

/-- Each job has its turn, and a timer fires unless it is cleared. -/
structure Fair (turns : Nat → Turn ProbeEvent) : Prop where
  served : Served probe createProbe turns
  fires : ∀ (n k : Nat) (r : ProbeRun), (config probe createProbe turns n).state.runs[k]? = some r →
    ∃ m, n ≤ m ∧ (turns m = .event (.timeout k) ∨
      ∃ r', (config probe createProbe turns m).state.runs[k]? = some r' ∧ r'.armed = false)

section LongRun
variable {turns : Nat → Turn ProbeEvent} {n k : Nat} {r : ProbeRun}

theorem grows_from (turns : Nat → Turn ProbeEvent) {n m : Nat} (hnm : n ≤ m) :
    (config probe createProbe turns n).state.Grows (config probe createProbe turns m).state :=
  related Probe.Grows.refl Probe.Grows.trans Probe.grows_perform Probe.grows_happen hnm

theorem timeout_disarms (s : Probe) (hr : s.runs[k]? = some r) :
    ∃ r', (Probe.happen (.timeout k) s).1.runs[k]? = some r' ∧ r'.armed = false := by
  rw [Probe.happen]
  split
  · exact ⟨_, Probe.getElem?_modify_some.mpr ⟨r, hr, (if_pos rfl).symm⟩, rfl⟩
  · rename_i hoff
    exact ⟨r, hr, by simpa [hr] using hoff⟩

theorem raced_decides (s : Probe) (outcome : PromiseResult Outcome) (hr : s.runs[k]? = some r) :
    ∃ r', (Probe.perform (.raced k outcome) s).1.runs[k]? = some r' ∧ r'.race.isSome = true := by
  rw [Probe.perform]
  split
  · exact ⟨_, Probe.getElem?_modify_some.mpr ⟨r, hr, (if_pos rfl).symm⟩, rfl⟩
  · rename_i hdecided
    refine ⟨r, hr, ?_⟩
    cases hrace : r.race with
    | none => simp [hr, hrace] at hdecided
    | some outcome => rfl

theorem resumed_answers (s : Probe) (outcome : PromiseResult Outcome) (hr : s.runs[k]? = some r) :
    ∃ r', (Probe.perform (.resumed k outcome) s).1.runs[k]? = some r' ∧
      r'.answer.isSome = true :=
  ⟨_, Probe.getElem?_modify_some.mpr ⟨r, hr, (if_pos rfl).symm⟩, rfl⟩

theorem settle_attempts (s : Probe) {i : Nat} {how : Settlement} (h : s.SettledAs i how) :
    (Probe.perform (.settle i how) s).1.Attempted i := by
  obtain ⟨o, ho, -⟩ := h
  exact ⟨_, Probe.getElem?_modify_some.mpr ⟨o, ho, (if_pos rfl).symm⟩, rfl⟩

theorem timer_ends (hfair : Fair turns)
    (hr : (config probe createProbe turns n).state.runs[k]? = some r) :
    ∃ m r', n ≤ m ∧ (config probe createProbe turns m).state.runs[k]? = some r' ∧
      r'.armed = false := by
  obtain ⟨m, hle, hturn | ⟨r', hr', harmed⟩⟩ := hfair.fires n k r hr
  · obtain ⟨old, hold, -⟩ := (grows_from turns hle).runs k r hr
    obtain ⟨r', hr', harmed⟩ := timeout_disarms _ hold
    have hnext : (config probe createProbe turns (m + 1)).state = _ := config_event hturn
    exact ⟨m + 1, r', Nat.le_succ_of_le hle, by rw [hnext]; exact hr', harmed⟩
  · exact ⟨m, r', hle, hr', harmed⟩

/-- A call whose timer is gone has a race that is decided or about to be. -/
theorem race_ends (hfair : Fair turns)
    (hr : (config probe createProbe turns n).state.runs[k]? = some r) (harmed : r.armed = false) :
    ∃ m r', n ≤ m ∧ (config probe createProbe turns m).state.runs[k]? = some r' ∧
      r'.race.isSome = true := by
  cases hrace : r.race with
  | some outcome => exact ⟨n, r, Nat.le_refl n, hr, by rw [hrace]; rfl⟩
  | none =>
    obtain ⟨outcome, hmem⟩ := (Queued.always turns n).race k r hr hrace harmed
    obtain ⟨m, hle, hturn, rest, hjobs⟩ := performed hfair.served hmem
    obtain ⟨old, hold, -⟩ := (grows_from turns hle).runs k r hr
    obtain ⟨r', hr', hdecided⟩ := raced_decides _ outcome hold
    have hnext := config_job hturn hjobs
    exact ⟨m + 1, r', Nat.le_succ_of_le hle, by rw [hnext]; exact hr', hdecided⟩

theorem answer_follows (hfair : Fair turns)
    (hr : (config probe createProbe turns n).state.runs[k]? = some r)
    (hrace : r.race.isSome = true) :
    ∃ m r', n ≤ m ∧ (config probe createProbe turns m).state.runs[k]? = some r' ∧
      r'.answer.isSome = true := by
  obtain ⟨outcome, hrace⟩ := Option.isSome_iff_exists.mp hrace
  cases hanswer : r.answer with
  | some a => exact ⟨n, r, Nat.le_refl n, hr, by rw [hanswer]; rfl⟩
  | none =>
    have hmem := (Queued.always turns n).resume k r outcome hr hrace hanswer
    obtain ⟨m, hle, hturn, rest, hjobs⟩ := performed hfair.served hmem
    obtain ⟨old, hold, -⟩ := (grows_from turns hle).runs k r hr
    obtain ⟨r', hr', hanswered⟩ := resumed_answers _ outcome hold
    have hnext := config_job hturn hjobs
    exact ⟨m + 1, r', Nat.le_succ_of_le hle, by rw [hnext]; exact hr', hanswered⟩

/-- **Every call is answered**: its timer ends, then its race, then the call. -/
theorem run_answered (hfair : Fair turns)
    (hr : (config probe createProbe turns n).state.runs[k]? = some r) :
    ∃ m r', n ≤ m ∧ (config probe createProbe turns m).state.runs[k]? = some r' ∧
      r'.answer.isSome = true := by
  obtain ⟨m₁, r₁, h₁, hr₁, harmed⟩ := timer_ends hfair hr
  obtain ⟨m₂, r₂, h₂, hr₂, hrace⟩ := race_ends hfair hr₁ harmed
  obtain ⟨m₃, r₃, h₃, hr₃, hanswer⟩ := answer_follows hfair hr₂ hrace
  exact ⟨m₃, r₃, Nat.le_trans h₁ (Nat.le_trans h₂ h₃), hr₃, hanswer⟩

theorem attempt_follows (hfair : Fair turns) {i : Nat} {how : Settlement}
    (h : (config probe createProbe turns n).state.SettledAs i how) :
    ∃ m, n ≤ m ∧ (config probe createProbe turns m).state.Attempted i := by
  obtain ⟨o, ho, hcheck⟩ := h
  cases hattempt : o.attempt with
  | some v => exact ⟨n, Nat.le_refl n, o, ho, by rw [hattempt]; rfl⟩
  | none =>
    have hmem := (Queued.always turns n).settle i o how ho hcheck hattempt
    obtain ⟨m, hle, hturn, rest, hjobs⟩ := performed hfair.served hmem
    have hsettled := (grows_from turns hle).settled i how ⟨o, ho, hcheck⟩
    have hnext := config_job hturn hjobs
    exact ⟨m + 1, Nat.le_succ_of_le hle, by rw [hnext]; exact settle_attempts _ hsettled⟩

/-- **The slot comes free** once the operation has settled. -/
theorem slot_released (hfair : Fair turns) {i : Nat} {how : Settlement}
    (h : (config probe createProbe turns n).state.SettledAs i how) :
    ∃ m, n ≤ m ∧ i ∈ (config probe createProbe turns m).state.released := by
  obtain ⟨m, hle, hattempted⟩ := attempt_follows hfair h
  by_cases hreleased : i ∈ (config probe createProbe turns m).state.released
  · exact ⟨m, hle, hreleased⟩
  · have hmem := (Queued.always turns m).release i hattempted hreleased
    obtain ⟨m', hle', hturn, rest, hjobs⟩ := performed hfair.served hmem
    have hnext := config_job hturn hjobs
    refine ⟨m' + 1, by omega, ?_⟩
    rw [hnext]
    exact List.mem_cons_self

end LongRun

/-! ## Single flight -/

/-- What is seen of a probe at any moment. -/
structure SingleFlight (s : Probe) : Prop where
  one : ∀ i j, s.Outstanding i → s.Outstanding j → i = j
  counted : s.started = s.operations.length
  answers : ∀ r ∈ s.runs, ∀ a, r.answer = some a →
    a = .ok ⟨.up, none⟩ ∨ a = .ok ⟨.down, none⟩ ∨ a = .ok ⟨.down, some true⟩
  /-- A success is that of the operation that was awaited, which had not released the slot. -/
  up : ∀ r ∈ s.runs, r.answer = some (.ok ⟨.up, none⟩) →
    s.SettledAs r.operation .fulfilled ∧ r.afterRelease = false
  /-- An answer that is not the timer's is what the operation came to. -/
  told : ∀ r ∈ s.runs, ∀ status, r.answer = some (.ok ⟨status, none⟩) →
    ∃ how, s.SettledAs r.operation how ∧ attemptOf how = .ok status
  /-- The slot is free once every operation has released it. -/
  free : s.inFlight = false ↔ ∀ i < s.operations.length, i ∈ s.released
  /-- A call that finds the slot free begins an operation and awaits it. -/
  begins : s.inFlight = false →
    s.run.1.started = s.started + 1 ∧ s.run.1.Outstanding s.operations.length ∧
      s.run.1.runs = s.runs ++ [s.newRun s.operations.length]
  /-- Any other call begins none and awaits the last one that was begun. -/
  joins : s.inFlight = true → s.run.1.started = s.started ∧
    ∃ i, i + 1 = s.operations.length ∧ i ∉ s.released ∧ s.run.1.runs = s.runs ++ [s.newRun i]
  /-- After the release of the last operation, a call begins another. -/
  renewed : ∀ i ∈ s.released, i + 1 = s.operations.length →
    s.run.1.started = s.started + 1 ∧ s.run.1.Outstanding s.operations.length ∧
      s.run.1.runs = s.runs ++ [s.newRun s.operations.length]

theorem Probe.Inv.outstanding_pending {s : Probe} (h : s.Inv) {i : Nat} (hi : s.Outstanding i) :
    s.pending = some i := by
  obtain ⟨o, ho, hnone⟩ := hi
  refine (h.freed i (List.getElem?_eq_some_iff.mp ho).1).resolve_right fun hreleased => ?_
  obtain ⟨o', ho', hsome⟩ := h.released i hreleased
  obtain rfl := Option.some.inj (ho.symm.trans ho')
  obtain ⟨v, hv⟩ := Option.isSome_iff_exists.mp hsome
  obtain ⟨how, hcheck, -⟩ := h.attempt i o v ho hv
  rw [hnone] at hcheck
  cases hcheck

theorem Probe.Inv.free {s : Probe} (h : s.Inv) :
    s.inFlight = false ↔ ∀ i < s.operations.length, i ∈ s.released := by
  rw [inFlight]
  cases hpending : s.pending with
  | none =>
    refine iff_of_true rfl fun i hi => (h.freed i hi).resolve_left ?_
    rw [hpending]
    exact nofun
  | some i =>
    obtain ⟨hlast, hnot⟩ := h.pending i hpending
    exact iff_of_false nofun fun hall => hnot (hall i (by omega))

theorem Probe.begins_of_free {s : Probe} (hfree : s.inFlight = false) :
    s.run.1.started = s.started + 1 ∧ s.run.1.Outstanding s.operations.length ∧
      s.run.1.runs = s.runs ++ [s.newRun s.operations.length] := by
  have hnone : s.pending = none := by simpa [Probe.inFlight] using hfree
  rw [Probe.run_begins hnone]
  exact ⟨rfl, ⟨⟨none, none⟩, List.getElem?_concat_length, rfl⟩, rfl⟩

theorem Probe.Inv.singleFlight {s : Probe} (h : s.Inv) : SingleFlight s where
  one i j hi hj :=
    Option.some.inj ((h.outstanding_pending hi).symm.trans (h.outstanding_pending hj))
  counted := h.counted
  answers := by
    intro r hr a ha
    obtain ⟨k, hk⟩ := List.mem_iff_getElem?.mp hr
    obtain ⟨outcome, hfits, rfl⟩ := h.answer k r a hk ha
    rcases hfits with rfl | ⟨how, -, rfl⟩
    · exact .inr (.inr rfl)
    · cases how with
      | fulfilled => exact .inl rfl
      | rejected => exact .inr (.inl rfl)
  up := by
    intro r hr ha
    obtain ⟨k, hk⟩ := List.mem_iff_getElem?.mp hr
    refine ⟨?_, (h.run k r hk).2⟩
    -- a timer and a rejected check give other answers
    obtain ⟨outcome, hfits, hanswer⟩ := h.answer k r _ hk ha
    rcases hfits with rfl | ⟨how, hsettled, rfl⟩
    · cases hanswer
    · cases how with
      | fulfilled => exact hsettled
      | rejected => cases hanswer
  told := by
    intro r hr status ha
    obtain ⟨k, hk⟩ := List.mem_iff_getElem?.mp hr
    obtain ⟨outcome, hfits, hanswer⟩ := h.answer k r _ hk ha
    rcases hfits with rfl | ⟨how, hsettled, rfl⟩
    · cases hanswer
    · refine ⟨how, hsettled, ?_⟩
      cases how with
      | fulfilled | rejected =>
        cases hanswer
        rfl
  free := h.free
  begins := Probe.begins_of_free
  joins := by
    intro hbusy
    obtain ⟨i, hpending⟩ := Option.isSome_iff_exists.mp hbusy
    rw [Probe.run_joins hpending]
    exact ⟨rfl, i, (h.pending i hpending).1, (h.pending i hpending).2, rfl⟩
  renewed := by
    intro i hi hlast
    refine Probe.begins_of_free (Bool.eq_false_iff.mpr fun hbusy => ?_)
    obtain ⟨j, hpending⟩ := Option.isSome_iff_exists.mp hbusy
    obtain ⟨hj, hnot⟩ := h.pending j hpending
    obtain rfl : i = j := by omega
    exact hnot hi

/-! ## Timers -/

/-- A race that its timer decided, and an answer that says so, come after the timer. -/
structure OnTime (fired : Nat → Prop) (c : Config Probe ProbeJob) : Prop where
  raced : ∀ k, .raced k (.ok .timeout) ∈ c.jobs → fired k
  resumed : ∀ k, .resumed k (.ok .timeout) ∈ c.jobs → fired k
  answered : ∀ (k : Nat) (r : ProbeRun), c.state.runs[k]? = some r →
    r.answer = some (.ok ⟨.down, some true⟩) → fired k

theorem raceOf_ne_timeout (attempt : PromiseResult Status) : raceOf attempt ≠ .ok .timeout := by
  cases attempt with
  | ok status => exact nofun
  | error e => exact nofun

namespace OnTime
variable {fired : Nat → Prop} {s : Probe} {jobs rest : List ProbeJob} {j : ProbeJob}

/-- Timers still account for the answers after a step, if they account for what is queued
anew and for what is written into a call. -/
theorem next (h : OnTime fired ⟨s, jobs⟩) {s' : Probe} {jobs' new : List ProbeJob}
    (hjobs : ∀ job ∈ jobs', job ∈ jobs)
    (hraced : ∀ k, .raced k (.ok .timeout) ∈ new → fired k)
    (hresumed : ∀ k, .resumed k (.ok .timeout) ∈ new → fired k)
    (hruns : ∀ (k : Nat) (r' : ProbeRun), s'.runs[k]? = some r' →
      r'.answer = some (.ok ⟨.down, some true⟩) →
      fired k ∨ ∃ r, s.runs[k]? = some r ∧ r.answer = r'.answer) :
    OnTime fired ⟨s', jobs' ++ new⟩ where
  raced k hmem := (List.mem_append.mp hmem).elim (fun hold => h.raced k (hjobs _ hold)) (hraced k)
  resumed k hmem :=
    (List.mem_append.mp hmem).elim (fun hold => h.resumed k (hjobs _ hold)) (hresumed k)
  answered k r' hr' ha := by
    rcases hruns k r' hr' ha with hfired | ⟨r, hr, hsame⟩
    · exact hfired
    · exact h.answered k r hr (hsame.trans ha)

/-- A call whose answer is left alone answers as before. -/
theorem same_answer {k : Nat} {f : ProbeRun → ProbeRun} (hf : ∀ r, (f r).answer = r.answer)
    (j : Nat) (r' : ProbeRun) (hr' : (s.runs.modify k f)[j]? = some r')
    (_ : r'.answer = some (.ok ⟨.down, some true⟩)) :
    fired j ∨ ∃ r, s.runs[j]? = some r ∧ r.answer = r'.answer := by
  obtain ⟨r, hr, rfl⟩ := Probe.getElem?_modify_some.mp hr'
  refine .inr ⟨r, hr, ?_⟩
  split
  · exact (hf r).symm
  · rfl

theorem perform (h : OnTime fired ⟨s, j :: rest⟩) :
    OnTime fired ⟨(Probe.perform j s).1, rest ++ (Probe.perform j s).2⟩ := by
  have hrest : ∀ job ∈ rest, job ∈ j :: rest := fun job => List.mem_cons_of_mem j
  cases j with
  | settle i how =>
    refine h.next hrest (fun k hk => ?_) (fun k hk => ?_) fun k r hr _ => .inr ⟨r, hr, rfl⟩
    · rcases List.mem_cons.mp hk with hk | hk
      · cases hk
      · obtain ⟨k', -, heq⟩ := List.mem_map.mp hk
        injection heq with _ houtcome
        exact absurd houtcome (raceOf_ne_timeout _)
    · rcases List.mem_cons.mp hk with hk | hk
      · cases hk
      · obtain ⟨k', -, heq⟩ := List.mem_map.mp hk
        cases heq
  | release i => exact h.next hrest nofun nofun fun k r hr _ => .inr ⟨r, hr, rfl⟩
  | raced k outcome =>
    rw [Probe.perform]
    split
    · refine h.next hrest (fun k' hk => ?_) (fun k' hk => ?_) (same_answer fun _ => rfl)
      · cases List.mem_singleton.mp hk
      · obtain ⟨rfl, rfl⟩ := ProbeJob.resumed.inj (List.mem_singleton.mp hk)
        exact h.raced k' List.mem_cons_self
    · exact h.next hrest nofun nofun fun k r hr _ => .inr ⟨r, hr, rfl⟩
  | resumed k outcome =>
    refine h.next hrest nofun nofun fun k' r' hr' ha => ?_
    obtain ⟨r, hr, rfl⟩ := Probe.getElem?_modify_some.mp hr'
    by_cases hk : k = k'
    · rw [if_pos hk] at ha
      refine .inl (hk ▸ h.resumed k ?_)
      obtain rfl : outcome = .ok .timeout := by
        match outcome, ha with
        | .ok .timeout, _ => rfl
      exact List.mem_cons_self
    · rw [if_neg hk]
      exact .inr ⟨r, hr, rfl⟩

theorem happen {e : ProbeEvent} (h : OnTime fired ⟨s, jobs⟩)
    (hfired : ∀ k, e = .timeout k → fired k) :
    OnTime fired ⟨(Probe.happen e s).1, jobs ++ (Probe.happen e s).2⟩ := by
  have hjobs : ∀ job ∈ jobs, job ∈ jobs := fun _ hmem => hmem
  cases e with
  | run =>
    have hnew : ∀ i (k : Nat) (r' : ProbeRun), (s.runs ++ [s.newRun i])[k]? = some r' →
        r'.answer = some (.ok ⟨.down, some true⟩) →
        fired k ∨ ∃ r, s.runs[k]? = some r ∧ r.answer = r'.answer := by
      intro i k r' hr' ha
      rw [List.getElem?_append] at hr'
      split at hr'
      · exact .inr ⟨r', hr', rfl⟩
      · obtain rfl := List.mem_singleton.mp (List.mem_of_getElem? hr')
        cases ha
    rw [Probe.happen]
    cases hpending : s.pending with
    | none =>
      rw [Probe.run_begins hpending]
      exact h.next hjobs nofun nofun (hnew _)
    | some i =>
      rw [Probe.run_joins hpending, Probe.joined]
      split
      · refine h.next hjobs (fun k hk => ?_) (fun k hk => ?_) (hnew _)
        · obtain ⟨-, houtcome⟩ := ProbeJob.raced.inj (List.mem_singleton.mp hk)
          exact absurd houtcome.symm (raceOf_ne_timeout _)
        · cases List.mem_singleton.mp hk
      · exact h.next hjobs nofun nofun (hnew _)
  | settled i how =>
    rw [Probe.happen]
    split
    · exact h.next hjobs (fun k hk => by cases List.mem_singleton.mp hk)
        (fun k hk => by cases List.mem_singleton.mp hk) fun k r hr _ => .inr ⟨r, hr, rfl⟩
    · exact h.next hjobs nofun nofun fun k r hr _ => .inr ⟨r, hr, rfl⟩
  | timeout k =>
    rw [Probe.happen]
    split
    · refine h.next hjobs (fun k' hk => ?_) (fun k' hk => ?_) (same_answer fun _ => rfl)
      · obtain ⟨rfl, -⟩ := ProbeJob.raced.inj (List.mem_singleton.mp hk)
        exact hfired k' rfl
      · cases List.mem_singleton.mp hk
    · exact h.next hjobs nofun nofun fun k r hr _ => .inr ⟨r, hr, rfl⟩

theorem mono {fired' : Nat → Prop} {c : Config Probe ProbeJob} (h : OnTime fired c)
    (himp : ∀ k, fired k → fired' k) : OnTime fired' c where
  raced k hmem := himp k (h.raced k hmem)
  resumed k hmem := himp k (h.resumed k hmem)
  answered k r hr ha := himp k (h.answered k r hr ha)

/-- **Timers account for the answers**, in every run: what is told of a timer follows it. -/
theorem always (turns : Nat → Turn ProbeEvent) (n : Nat) :
    OnTime (fun k => ∃ m < n, turns m = .event (.timeout k))
      (config probe createProbe turns n) := by
  induction n with
  | zero => exact ⟨nofun, nofun, nofun⟩
  | succ n ih =>
    have hlater : OnTime (fun k => ∃ m < n + 1, turns m = .event (.timeout k))
        (config probe createProbe turns n) :=
      ih.mono fun k ⟨m, hlt, hturn⟩ => ⟨m, Nat.lt_succ_of_lt hlt, hturn⟩
    rw [config]
    cases hturn : turns n with
    | event e => exact hlater.happen fun k heq => ⟨n, Nat.lt_succ_self n, heq ▸ hturn⟩
    | job =>
      generalize config probe createProbe turns n = c at hlater
      obtain ⟨s, jobs⟩ := c
      cases jobs with
      | nil => exact hlater
      | cons j rest => exact hlater.perform

end OnTime

/-- **Probes never pile up**, whatever happens in whatever order; and only where its timer has
fired does a call answer that it timed out. -/
theorem probes_never_pile_up (turns : Nat → Turn ProbeEvent) :
    (∀ n, SingleFlight (config probe createProbe turns n).state) ∧
    (∀ (n k : Nat) (r : ProbeRun), (config probe createProbe turns n).state.runs[k]? = some r →
      r.answer = some (.ok ⟨.down, some true⟩) → ∃ m < n, turns m = .event (.timeout k)) ∧
    (Fair turns →
      (∀ n, ∀ k < (config probe createProbe turns n).state.runs.length,
        ∃ m r a, n ≤ m ∧ (config probe createProbe turns m).state.runs[k]? = some r ∧
          r.answer = some (.ok a)) ∧
      ∀ n i how, (config probe createProbe turns n).state.SettledAs i how →
        ∃ m, n ≤ m ∧ i ∈ (config probe createProbe turns m).state.released) := by
  have hsingle := fun n => (Queued.always turns n).inv.singleFlight
  refine ⟨hsingle, fun n => (OnTime.always turns n).answered,
    fun hfair => ⟨fun n k hk => ?_, fun n i how => slot_released hfair⟩⟩
  obtain ⟨m, r, hle, hr, hsome⟩ := run_answered hfair (List.getElem?_eq_getElem hk)
  obtain ⟨a, ha⟩ := Option.isSome_iff_exists.mp hsome
  rcases (hsingle m).answers r (List.mem_of_getElem? hr) a ha with rfl | rfl | rfl
  · exact ⟨m, r, _, hle, hr, ha⟩
  · exact ⟨m, r, _, hle, hr, ha⟩
  · exact ⟨m, r, _, hle, hr, ha⟩

/-! ## A probe that is answered -/

/-- One call, whose operation is fulfilled at once. -/
def oneCall : Nat → Turn ProbeEvent
  | 0 => .event .run
  | 1 => .event (.settled 0 .fulfilled)
  | _ => .job

theorem oneCall_end (n : Nat) : config probe createProbe oneCall (n + 6) =
    ⟨⟨none, 1, [⟨some .fulfilled, some (.ok .up)⟩], [0],
      [⟨0, false, false, some (.ok (.status .up)), some (.ok ⟨.up, none⟩)⟩]⟩, []⟩ := by
  induction n with
  | zero => rfl
  | succ n ih =>
    rw [Nat.succ_add, config, ih]
    rfl

theorem oneCall_fair : Fair oneCall where
  served n _ := ⟨n + 2, Nat.le_add_right n 2, rfl⟩
  fires n k r hr := by
    obtain ⟨r', hr', -⟩ := (grows_from oneCall (Nat.le_add_right n 6)).runs k r hr
    refine ⟨n + 6, Nat.le_add_right n 6, .inr ⟨r', hr', ?_⟩⟩
    rw [oneCall_end] at hr'
    obtain rfl := List.mem_singleton.mp (List.mem_of_getElem? hr')
    rfl

theorem oneCall_answered :
    (∀ n, SingleFlight (config probe createProbe oneCall n).state) ∧
      ∃ m r a, 1 ≤ m ∧ (config probe createProbe oneCall m).state.runs[0]? = some r ∧
        r.answer = some (.ok a) :=
  ⟨(probes_never_pile_up oneCall).1,
    ((probes_never_pile_up oneCall).2.2 oneCall_fair).1 1 0 (by decide)⟩

end PressLabz
