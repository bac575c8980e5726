import Mathlib.Data.List.Nodup
import Mathlib.Data.List.Range
import PressLabz.Rows

/-! # The gate of the uploads

`createAdmission` of `apps/api/src/media/admission.ts`: how many uploads may be in
flight, and how many may wait.  The code runs to completion between two events, so a
state is changed by one call of `acquire` or `release`, one abort of a signal or one
deadline at a time, in any order.

A promise that is settled twice keeps its first outcome without a word, so every call
of `resolve` and `reject` is on record here, and that there is one for each caller is
proved.  The same goes for the timer and the listener of a waiter: they are kept apart
from the queue, and that they are those of the queue is proved.
-/
namespace PressLabz

/-! ## Options -/

/-- A number, by its text where it is no integer. -/
inductive JsNumber where
  | integer (n : Int)
  | other (text : String)
  deriving DecidableEq

def JsNumber.text : JsNumber → String
  | .integer n => toString n
  | .other text => text

def MAX_SAFE_INTEGER : Nat := 9007199254740991

def JsNumber.isSafeInteger : JsNumber → Bool
  | .integer n => n.natAbs ≤ MAX_SAFE_INTEGER
  | .other _ => false

/-- Beyond this, a timeout is one millisecond. -/
def MAX_TIMEOUT_MS : Nat := 2147483647

def DEFAULT_MAX_ACTIVE : Nat := 2
def DEFAULT_MAX_WAITING : Nat := 16
def DEFAULT_WAIT_MS : Nat := 30000

/-- The text of the `RangeError`. -/
def rangeError (name : String) (value : JsNumber) (min max : Nat) : String :=
  name ++ " must be a safe integer between " ++ toString min ++ " and " ++ toString max ++
    ", not " ++ value.text

def integerOption (name : String) (value : JsNumber) (min max : Nat) :
    Except String { n : Nat // min ≤ n ∧ n ≤ max } :=
  match value with
  | .integer (.ofNat n) =>
    if h : JsNumber.isSafeInteger (.integer n) = true ∧ min ≤ n ∧ n ≤ max then .ok ⟨n, h.2⟩
    else .error (rangeError name value min max)
  | _ => .error (rangeError name value min max)

structure AdmissionOptions where
  maxActive : Option JsNumber := none
  maxWaiting : Option JsNumber := none
  waitMs : Option JsNumber := none

/-- The limits of a gate that was created. -/
structure AdmissionLimits where
  maxActive : Nat
  maxWaiting : Nat
  waitMs : Nat
  maxActive_range : 1 ≤ maxActive ∧ maxActive ≤ MAX_SAFE_INTEGER
  maxWaiting_range : 0 ≤ maxWaiting ∧ maxWaiting ≤ MAX_SAFE_INTEGER
  waitMs_range : 1 ≤ waitMs ∧ waitMs ≤ MAX_TIMEOUT_MS

def createAdmission (options : AdmissionOptions) : Except String AdmissionLimits := do
  let maxActive ← integerOption "maxActive"
    (options.maxActive.getD (.integer DEFAULT_MAX_ACTIVE)) 1 MAX_SAFE_INTEGER
  let maxWaiting ← integerOption "maxWaiting"
    (options.maxWaiting.getD (.integer DEFAULT_MAX_WAITING)) 0 MAX_SAFE_INTEGER
  let waitMs ← integerOption "waitMs"
    (options.waitMs.getD (.integer DEFAULT_WAIT_MS)) 1 MAX_TIMEOUT_MS
  return ⟨maxActive, maxWaiting, waitMs, maxActive.2, maxWaiting.2, waitMs.2⟩

theorem integerOption_ok {name : String} {n min max : Nat} (h : min ≤ n ∧ n ≤ max)
    (hmax : max ≤ MAX_SAFE_INTEGER) : integerOption name (.integer n) min max = .ok ⟨n, h⟩ := by
  have hsafe : JsNumber.isSafeInteger (.integer n) = true :=
    decide_eq_true (show (n : Int).natAbs ≤ MAX_SAFE_INTEGER by omega)
  show (if h : JsNumber.isSafeInteger (.integer n) = true ∧ min ≤ n ∧ n ≤ max then _ else _) = _
  rw [dif_pos ⟨hsafe, h⟩]

/-- Every triple in range is the limits of some gate. -/
theorem createAdmission_ok (limits : AdmissionLimits) :
    createAdmission ⟨some (.integer limits.maxActive), some (.integer limits.maxWaiting),
      some (.integer limits.waitMs)⟩ = .ok limits := by
  unfold createAdmission
  rw [Option.getD_some, Option.getD_some, Option.getD_some,
    integerOption_ok limits.maxActive_range (Nat.le_refl _),
    integerOption_ok limits.maxWaiting_range (Nat.le_refl _),
    integerOption_ok limits.waitMs_range (by decide)]
  rfl

/-- The defaults pass their own checks. -/
theorem createAdmission_default : ∃ limits, createAdmission {} = .ok limits ∧
    limits.maxActive = DEFAULT_MAX_ACTIVE ∧ limits.maxWaiting = DEFAULT_MAX_WAITING ∧
    limits.waitMs = DEFAULT_WAIT_MS := ⟨_, rfl, rfl, rfl, rfl⟩

/-- An option outside its range is refused, and so is one that is no integer: one
millisecond is not what a longer wait becomes. -/
theorem integerOption_error {name : String} {value : JsNumber} {min max : Nat}
    (h : ∀ n : Nat, value = .integer n → ¬ (min ≤ n ∧ n ≤ max)) :
    integerOption name value min max = .error (rangeError name value min max) := by
  unfold integerOption
  split
  · rename_i n
    exact dif_neg fun hin => h n rfl hin.2
  · rfl

/-! ## The state -/

/-- A caller in the queue, with the signal it came with. -/
structure Waiter where
  id : Nat
  signal : Nat
  deriving DecidableEq

/-- A permit, and whether it was released. -/
structure Slot where
  holder : Nat
  released : Bool
  deriving DecidableEq

/-- What `resolve` or `reject` is called with. -/
inductive AdmissionOutcome (Reason : Type) where
  | slot
  | aborted (reason : Reason)
  | saturated
  | timeout

/-- The variables of the gate, the timers and listeners it has set, and what the callers
were given.  Callers are numbered as they come. -/
structure Admission (Reason : Type) where
  active : Int := 0
  queue : List Waiter := []
  timers : List Waiter := []
  listeners : List Waiter := []
  /-- The signals that were aborted, with the reason. -/
  aborted : List (Nat × Reason) := []
  /-- The permits, in the order in which they were granted. -/
  slots : List Slot := []
  outcomes : List (Nat × AdmissionOutcome Reason) := []
  /-- The number of the next caller. -/
  arrivals : Nat := 0

inductive AdmissionEvent (Reason : Type) where
  | acquire (signal : Nat)
  | release (holder : Nat)
  | abort (signal : Nat) (reason : Reason)
  | deadline (id : Nat)

namespace Admission
variable {Reason : Type} (a : Admission Reason) (limits : AdmissionLimits)

/-- `waiting`: how many callers are in the queue. -/
def waiting : Nat := a.queue.length

/-- The slots that were granted and not released. -/
def held : List Slot := a.slots.filter fun slot => !slot.released

/-- The callers that were granted a slot, in that order. -/
def grants : List Nat :=
  a.outcomes.filterMap fun
    | (id, .slot) => some id
    | _ => none

def reject (id : Nat) (outcome : AdmissionOutcome Reason) : Admission Reason :=
  { a with outcomes := a.outcomes ++ [(id, outcome)] }

/-- `resolve(grant())`. -/
def grant (id : Nat) : Admission Reason :=
  { a with slots := a.slots ++ [⟨id, false⟩], outcomes := a.outcomes ++ [(id, .slot)] }

/-- A waiter is settled: its timer is cleared and its listener taken off the signal. -/
def settle (w : Waiter) : Admission Reason :=
  { a with timers := a.timers.erase w, listeners := a.listeners.erase w }

/-- A waiter leaves the queue, and is settled. -/
def remove (w : Waiter) : Admission Reason :=
  { a.settle w with queue := a.queue.erase w }

/-- The caller takes a number. -/
def arrive : Admission Reason := { a with arrivals := a.arrivals + 1 }

def enqueue (w : Waiter) : Admission Reason :=
  { a with
    queue := a.queue ++ [w]
    timers := a.timers ++ [w]
    listeners := a.listeners ++ [w] }

def acquire (signal : Nat) : Admission Reason :=
  match a.aborted.lookup signal with
  | some reason => a.arrive.reject a.arrivals (.aborted reason)
  | none =>
    if a.active < limits.maxActive then
      { a.arrive with active := a.active + 1 }.grant a.arrivals
    else if limits.maxWaiting ≤ a.queue.length then a.arrive.reject a.arrivals .saturated
    else a.arrive.enqueue ⟨a.arrivals, signal⟩

/-- `released = true`. -/
def markReleased (holder : Nat) : Admission Reason :=
  { a with slots := a.slots.map fun slot =>
      if slot.holder = holder then { slot with released := true } else slot }

/-- The permit of a slot that was released goes to the head of the queue, or back to the
gate where nobody waits. -/
def passOn : Admission Reason :=
  match a.queue with
  | next :: rest => ({ a with queue := rest }.settle next).grant next.id
  | [] => { a with active := a.active - 1 }

def release (holder : Nat) : Admission Reason :=
  match a.slots.find? fun slot => slot.holder = holder with
  | none => a
  | some slot => if slot.released then a else (a.markReleased holder).passOn

def onAbort (reason : Reason) (w : Waiter) : Admission Reason :=
  (a.remove w).reject w.id (.aborted reason)

/-- A signal is aborted once; the listeners of the waiters that came with it are called in
their order. -/
def abort (signal : Nat) (reason : Reason) : Admission Reason :=
  match a.aborted.lookup signal with
  | some _ => a
  | none =>
    (a.listeners.filter fun w => w.signal = signal).foldl (fun a w => a.onAbort reason w)
      { a with aborted := (signal, reason) :: a.aborted }

/-- The deadline of a caller, whose timer fires where it is still set. -/
def deadline (id : Nat) : Admission Reason :=
  match a.timers.find? fun w => w.id = id with
  | none => a
  | some w => (a.remove w).reject w.id .timeout

def step : AdmissionEvent Reason → Admission Reason
  | .acquire signal => a.acquire limits signal
  | .release holder => a.release holder
  | .abort signal reason => a.abort signal reason
  | .deadline id => a.deadline id

/-- A gate after these events, from its creation. -/
def run (events : List (AdmissionEvent Reason)) : Admission Reason :=
  events.foldl (fun a e => a.step limits e) {}

/-! ## What each operation changes -/

section Operations
variable {a limits} {id : Nat} {w : Waiter} {outcome : AdmissionOutcome Reason}

theorem grants_reject (h : outcome ≠ .slot) : (a.reject id outcome).grants = a.grants := by
  rw [grants, reject, List.filterMap_append]
  cases outcome with
  | slot => exact absurd rfl h
  | aborted _ | saturated | timeout => exact List.append_nil _

theorem grants_grant : (a.grant id).grants = a.grants ++ [id] := by
  rw [grants, grant, List.filterMap_append]
  rfl

theorem mem_grants : id ∈ a.grants ↔ (id, .slot) ∈ a.outcomes := by
  rw [grants, List.mem_filterMap]
  constructor
  · rintro ⟨⟨other, outcome⟩, hmem, heq⟩
    cases outcome with
    | slot =>
      obtain rfl := Option.some.inj heq
      exact hmem
    | aborted _ | saturated | timeout => cases heq
  · intro hmem
    exact ⟨_, hmem, rfl⟩

theorem held_grant : (a.grant id).held = a.held ++ [⟨id, false⟩] := by
  rw [held, grant, List.filter_append]
  rfl

/-- A slot that is released is held no longer; the others are. -/
theorem held_markReleased {slot : Slot} (hnodup : (a.slots.map Slot.holder).Nodup)
    (hfind : a.slots.find? (fun slot => slot.holder = id) = some slot)
    (hheld : slot.released = false) :
    (a.markReleased id).held.length + 1 = a.held.length := by
  obtain ⟨hid, init, rest, hslots, hinit⟩ := List.find?_eq_some_iff_append.mp hfind
  have hid : slot.holder = id := by simpa using hid
  have hinit : ∀ other ∈ init, other.holder ≠ id := fun other hother => by
    simpa using hinit other hother
  have hrest : ∀ other ∈ rest, other.holder ≠ id := by
    rintro other hother rfl
    rw [hslots, List.map_append, List.map_cons] at hnodup
    have hhead := (List.nodup_cons.mp (List.nodup_append.mp hnodup).2.1).1
    exact hhead (hid ▸ List.mem_map_of_mem hother)
  have hsame : ∀ l : List Slot, (∀ other ∈ l, other.holder ≠ id) → l.map (fun other =>
      if other.holder = id then { other with released := true } else other) = l := by
    intro l hl
    exact (List.map_congr_left fun other hother => if_neg (hl other hother)).trans (List.map_id l)
  have hmarked : (a.markReleased id).slots = init ++ { slot with released := true } :: rest := by
    rw [markReleased]
    dsimp only
    rw [hslots, List.map_append, List.map_cons, hsame init hinit, hsame rest hrest, if_pos hid]
  rw [held, held, hmarked, hslots, List.filter_append, List.filter_append,
    List.filter_cons_of_neg (by simp), List.filter_cons_of_pos (by simp [hheld])]
  simp only [List.length_append, List.length_cons]
  omega

theorem holders_markReleased :
    (a.markReleased id).slots.map Slot.holder = a.slots.map Slot.holder := by
  rw [markReleased, List.map_map]
  refine List.map_congr_left fun slot _ => ?_
  rw [Function.comp_apply]
  split
  · rfl
  · rfl

end Operations

/-! ## The invariant -/

/-- What the gate keeps at all times, but for the signals: its permits, its queue and the
order of both. -/
structure Balanced : Prop where
  timers : a.timers = a.queue
  listeners : a.listeners = a.queue
  active : a.active = a.held.length
  active_max : a.held.length ≤ limits.maxActive
  waiting_max : a.waiting ≤ limits.maxWaiting
  full : a.queue ≠ [] → a.held.length = limits.maxActive
  /-- The queue is in the order of arrival. -/
  order : (a.queue.map Waiter.id).Pairwise (· < ·)
  granted : a.slots.map Slot.holder = a.grants
  grants_order : a.grants.Pairwise (· < ·)
  /-- A waiter came after all who were granted a slot. -/
  grants_first : ∀ id ∈ a.grants, ∀ w ∈ a.queue, id < w.id
  /-- Each caller that came has an outcome or is in the queue, and not both. -/
  accounted : (a.outcomes.map Prod.fst ++ a.queue.map Waiter.id).Perm (List.range a.arrivals)

/-- The gate is balanced, and no waiter's signal was aborted. -/
structure Inv : Prop extends Balanced a limits where
  live : ∀ w ∈ a.queue, a.aborted.lookup w.signal = none

section Invariant
variable {a limits} {id : Nat} {w : Waiter} {outcome : AdmissionOutcome Reason}

theorem Balanced.queue_nodup (h : a.Balanced limits) : a.queue.Nodup :=
  List.Nodup.of_map _ (h.order.imp fun hlt => Nat.ne_of_lt hlt)

theorem Balanced.holders_nodup (h : a.Balanced limits) : (a.slots.map Slot.holder).Nodup := by
  rw [h.granted]
  exact h.grants_order.imp fun hlt => Nat.ne_of_lt hlt

theorem Balanced.grants_lt (h : a.Balanced limits) (hid : id ∈ a.grants) : id < a.arrivals := by
  refine List.mem_range.mp (h.accounted.mem_iff.mp (List.mem_append_left _ ?_))
  exact List.mem_map_of_mem (mem_grants.mp hid)

theorem Balanced.queue_lt (h : a.Balanced limits) (hw : w ∈ a.queue) : w.id < a.arrivals :=
  List.mem_range.mp (h.accounted.mem_iff.mp
    (List.mem_append_right _ (List.mem_map_of_mem hw)))

/-- A balanced gate stays balanced when a waiter leaves with an outcome that is no slot. -/
theorem Balanced.leave (h : a.Balanced limits) (hw : w ∈ a.queue) (houtcome : outcome ≠ .slot) :
    ((a.remove w).reject w.id outcome).Balanced limits where
  timers := congrArg (·.erase w) h.timers
  listeners := congrArg (·.erase w) h.listeners
  active := h.active
  active_max := h.active_max
  waiting_max := (List.length_erase_le).trans h.waiting_max
  full hne := h.full fun hnil => hne (by rw [reject, remove, hnil]; rfl)
  order := h.order.sublist ((List.erase_sublist).map _)
  granted := by
    rw [grants_reject houtcome]
    exact h.granted
  grants_order := by
    rw [grants_reject houtcome]
    exact h.grants_order
  grants_first id hid other hother := by
    rw [grants_reject houtcome] at hid
    exact h.grants_first id hid other (List.mem_of_mem_erase hother)
  accounted := by
    have hqueue : (w.id :: (a.queue.erase w).map Waiter.id).Perm (a.queue.map Waiter.id) :=
      ((List.perm_cons_erase hw).map Waiter.id).symm
    refine List.Perm.trans ?_ h.accounted
    show ((a.outcomes ++ [(w.id, outcome)]).map Prod.fst ++ (a.queue.erase w).map Waiter.id).Perm _
    rw [List.map_append, List.append_assoc]
    exact hqueue.append_left _

theorem accounted_arrive {ids : List Nat} (h : ids.Perm (List.range a.arrivals)) :
    (ids ++ [a.arrivals]).Perm (List.range (a.arrivals + 1)) := by
  rw [List.range_succ]
  exact h.append_right _

/-- A balanced gate stays balanced when it refuses a caller at once. -/
theorem Balanced.refuse (h : a.Balanced limits) (houtcome : outcome ≠ .slot) :
    (a.arrive.reject a.arrivals outcome).Balanced limits where
  timers := h.timers
  listeners := h.listeners
  active := h.active
  active_max := h.active_max
  waiting_max := h.waiting_max
  full := h.full
  order := h.order
  granted := by
    rw [grants_reject houtcome]
    exact h.granted
  grants_order := by
    rw [grants_reject houtcome]
    exact h.grants_order
  grants_first id hid := by
    rw [grants_reject houtcome] at hid
    exact h.grants_first id hid
  accounted := by
    refine List.Perm.trans ?_ (accounted_arrive h.accounted)
    show ((a.outcomes ++ [(a.arrivals, outcome)]).map Prod.fst ++ a.queue.map Waiter.id).Perm _
    rw [List.map_append, List.append_assoc, List.append_assoc]
    exact List.perm_append_comm.append_left _

/-- A balanced gate stays balanced when it grants a caller a free slot; nobody is waiting then. -/
theorem Balanced.enter (h : a.Balanced limits) (hfree : a.active < limits.maxActive) :
    ({ a.arrive with active := a.active + 1 }.grant a.arrivals).Balanced limits := by
  have hactive := h.active
  have hempty : a.queue = [] := by
    by_contra hne
    have hfull := h.full hne
    omega
  have hslots : ({ a.arrive with active := a.active + 1 }.grant a.arrivals).held =
      a.held ++ [⟨a.arrivals, false⟩] := held_grant
  have hlen : (a.held ++ [(⟨a.arrivals, false⟩ : Slot)]).length = a.held.length + 1 := by simp
  have hgrants : ({ a.arrive with active := a.active + 1 }.grant a.arrivals).grants =
      a.grants ++ [a.arrivals] := grants_grant
  refine ⟨h.timers, h.listeners, ?_, ?_, h.waiting_max, fun hne => absurd hempty hne, h.order, ?_,
    ?_, fun id _ w hw => ?_, ?_⟩
  · rw [hslots, hlen]
    show a.active + 1 = _
    omega
  · rw [hslots, hlen]
    omega
  · rw [hgrants, ← h.granted]
    exact List.map_append
  · rw [hgrants]
    refine List.pairwise_append.mpr ⟨h.grants_order, List.pairwise_singleton _ _, ?_⟩
    intro id hid other hother
    obtain rfl := List.mem_singleton.mp hother
    exact h.grants_lt hid
  · have hmem : w ∈ a.queue := hw
    rw [hempty] at hmem
    cases hmem
  · refine List.Perm.trans ?_ (accounted_arrive h.accounted)
    show ((a.outcomes ++ [(a.arrivals, AdmissionOutcome.slot)]).map Prod.fst ++
      a.queue.map Waiter.id).Perm _
    rw [List.map_append, List.append_assoc, List.append_assoc]
    exact List.perm_append_comm.append_left _

/-- A balanced gate stays balanced when a caller begins to wait; all the slots are held then. -/
theorem Balanced.wait (h : a.Balanced limits) (hfull : ¬ a.active < limits.maxActive)
    (hroom : a.queue.length < limits.maxWaiting) (signal : Nat) :
    (a.arrive.enqueue ⟨a.arrivals, signal⟩).Balanced limits := by
  have hactive := h.active
  have hmax := h.active_max
  refine ⟨congrArg (· ++ _) h.timers, congrArg (· ++ _) h.listeners, h.active, h.active_max, ?_,
    fun _ => ?_, ?_, h.granted, h.grants_order, fun id hid w hw => ?_, ?_⟩
  · show (a.queue ++ [_]).length ≤ _
    rw [List.length_append, List.length_singleton]
    exact hroom
  · show a.held.length = _
    omega
  · show ((a.queue ++ [_]).map Waiter.id).Pairwise _
    rw [List.map_append]
    refine List.pairwise_append.mpr ⟨h.order, List.pairwise_singleton _ _, ?_⟩
    intro id hid other hother
    obtain ⟨w, hw, rfl⟩ := List.mem_map.mp hid
    obtain rfl := List.mem_singleton.mp hother
    exact h.queue_lt hw
  · rcases List.mem_append.mp hw with hw | hw
    · exact h.grants_first id hid w hw
    · obtain rfl := List.mem_singleton.mp hw
      exact h.grants_lt hid
  · refine List.Perm.trans ?_ (accounted_arrive h.accounted)
    show (a.outcomes.map Prod.fst ++ (a.queue ++ [_]).map Waiter.id).Perm _
    rw [List.map_append, ← List.append_assoc]
    rfl

theorem Inv.acquire (h : a.Inv limits) (signal : Nat) : (a.acquire limits signal).Inv limits := by
  have hb := h.toBalanced
  rw [Admission.acquire]
  split
  · exact ⟨hb.refuse (fun h => by cases h), h.live⟩
  · rename_i hlive
    split
    · rename_i hfree
      exact ⟨hb.enter hfree, h.live⟩
    · rename_i hfull
      split
      · exact ⟨hb.refuse (fun h => by cases h), h.live⟩
      · rename_i hroom
        refine ⟨hb.wait hfull (Nat.lt_of_not_le hroom) signal, fun w hw => ?_⟩
        rcases List.mem_append.mp hw with hw | hw
        · exact h.live w hw
        · obtain rfl := List.mem_singleton.mp hw
          exact hlive

/-- A balanced gate stays balanced when a slot that is held is released. -/
theorem Balanced.passOn (h : a.Balanced limits) {slot : Slot}
    (hfind : a.slots.find? (fun slot => slot.holder = id) = some slot)
    (hheld : slot.released = false) : (a.markReleased id).passOn.Balanced limits := by
  have hnodup := h.holders_nodup
  have hone := held_markReleased hnodup hfind hheld
  have hactive := h.active
  have hmax := h.active_max
  unfold Admission.passOn
  split
  · -- The permit goes to the head of the queue, and as many slots are held as before.
    rename_i next rest hqueue
    have hqueue : a.queue = next :: rest := hqueue
    have horder := h.order
    rw [hqueue, List.map_cons, List.pairwise_cons] at horder
    have hslots : (({ a.markReleased id with queue := rest }.settle next).grant next.id).held.length
        = a.held.length := by
      rw [held_grant, List.length_append]
      exact hone
    refine ⟨?_, ?_, ?_, ?_, ?_, fun _ => ?_, horder.2, ?_, ?_, fun id hid w hw => ?_, ?_⟩
    · show a.timers.erase next = rest
      rw [h.timers, hqueue, List.erase_cons_head]
    · show a.listeners.erase next = rest
      rw [h.listeners, hqueue, List.erase_cons_head]
    · rw [hslots]
      exact hactive
    · rw [hslots]
      exact hmax
    · have hlen := h.waiting_max
      rw [Admission.waiting, hqueue, List.length_cons] at hlen
      exact (Nat.le_succ _).trans hlen
    · rw [hslots]
      exact h.full (by rw [hqueue]; exact List.cons_ne_nil _ _)
    · rw [grants_grant]
      show ((a.markReleased id).slots ++ [(⟨next.id, false⟩ : Slot)]).map Slot.holder =
        a.grants ++ [next.id]
      rw [List.map_append, holders_markReleased, h.granted]
      rfl
    · rw [grants_grant]
      refine List.pairwise_append.mpr ⟨h.grants_order, List.pairwise_singleton _ _, ?_⟩
      intro id hid other hother
      obtain rfl := List.mem_singleton.mp hother
      exact h.grants_first id hid next (by rw [hqueue]; exact List.mem_cons_self)
    · rw [grants_grant] at hid
      rcases List.mem_append.mp hid with hid | hid
      · exact h.grants_first id hid w (by rw [hqueue]; exact List.mem_cons_of_mem _ hw)
      · obtain rfl := List.mem_singleton.mp hid
        exact horder.1 w.id (List.mem_map_of_mem hw)
    · have haccounted := h.accounted
      rw [hqueue, List.map_cons] at haccounted
      show ((a.outcomes ++ [(next.id, AdmissionOutcome.slot)]).map Prod.fst ++
        rest.map Waiter.id).Perm _
      rw [List.map_append, List.append_assoc]
      exact haccounted
  · rename_i hqueue
    have hqueue : a.queue = [] := hqueue
    refine ⟨h.timers, h.listeners, ?_, ?_, h.waiting_max, fun hne => absurd hqueue hne, h.order, ?_,
      h.grants_order, h.grants_first, h.accounted⟩
    · show a.active - 1 = ((a.markReleased id).held.length : Int)
      omega
    · show (a.markReleased id).held.length ≤ _
      omega
    · exact holders_markReleased.trans h.granted

theorem Inv.release (h : a.Inv limits) (holder : Nat) : (a.release holder).Inv limits := by
  rw [Admission.release]
  split
  · exact h
  · rename_i slot hfind
    split
    · exact h
    · rename_i hheld
      refine ⟨h.toBalanced.passOn hfind (by simpa using hheld), fun w hw => ?_⟩
      have hmem : w ∈ a.queue := by
        unfold Admission.passOn at hw
        split at hw
        · rename_i next rest hqueue
          have hqueue : a.queue = next :: rest := hqueue
          rw [hqueue]
          exact List.mem_cons_of_mem _ hw
        · exact hw
      have hlive : (a.markReleased holder).passOn.aborted = a.aborted := by
        unfold Admission.passOn
        split
        · rfl
        · rfl
      rw [hlive]
      exact h.live w hmem

theorem Inv.deadline (h : a.Inv limits) (id : Nat) : (a.deadline id).Inv limits := by
  rw [Admission.deadline]
  split
  · exact h
  · rename_i w hfind
    have hw : w ∈ a.queue := h.timers ▸ List.mem_of_find?_eq_some hfind
    exact ⟨h.toBalanced.leave hw (fun h => by cases h),
      fun other hother => h.live other (List.mem_of_mem_erase hother)⟩

/-- The gate keeps its balance while the listeners of a signal take their waiters out of the
queue. -/
theorem Balanced.onAborts (h : a.Balanced limits) (reason : Reason) {ws : List Waiter}
    (hws : ∀ w ∈ ws, w ∈ a.queue) (hnodup : ws.Nodup) :
    (ws.foldl (fun a w => a.onAbort reason w) a).Balanced limits ∧
      (ws.foldl (fun a w => a.onAbort reason w) a).aborted = a.aborted ∧
      ∀ w ∈ (ws.foldl (fun a w => a.onAbort reason w) a).queue, w ∈ a.queue ∧ w ∉ ws := by
  induction ws generalizing a with
  | nil => exact ⟨h, rfl, fun w hw => ⟨hw, List.not_mem_nil⟩⟩
  | cons first rest ih =>
    obtain ⟨hfirst, hrest⟩ := List.forall_mem_cons.mp hws
    obtain ⟨hnot, hnodup⟩ := List.nodup_cons.mp hnodup
    have hleave : (a.onAbort reason first).Balanced limits := h.leave hfirst fun h => by cases h
    have hstay : ∀ w ∈ rest, w ∈ (a.onAbort reason first).queue := by
      intro w hw
      refine (List.mem_erase_of_ne ?_).mpr (hrest w hw)
      rintro rfl
      exact hnot hw
    obtain ⟨hbalanced, haborted, hqueue⟩ := ih hleave hstay hnodup
    refine ⟨hbalanced, haborted, fun w hw => ?_⟩
    obtain ⟨hmem, hout⟩ := hqueue w hw
    obtain ⟨hne, hmem⟩ := h.queue_nodup.mem_erase_iff.mp hmem
    exact ⟨hmem, fun h => (List.mem_cons.mp h).elim hne hout⟩

theorem Inv.abort (h : a.Inv limits) (signal : Nat) (reason : Reason) :
    (a.abort signal reason).Inv limits := by
  rw [Admission.abort]
  split
  · exact h
  · have hb : ({ a with aborted := (signal, reason) :: a.aborted } : Admission Reason).Balanced
        limits := ⟨h.timers, h.listeners, h.active, h.active_max, h.waiting_max, h.full, h.order,
          h.granted, h.grants_order, h.grants_first, h.accounted⟩
    have hlisteners : (a.listeners.filter fun w => w.signal = signal).Nodup := by
      rw [h.listeners]
      exact h.toBalanced.queue_nodup.filter _
    have hmem : ∀ w ∈ a.listeners.filter fun w => w.signal = signal, w ∈ a.queue := by
      intro w hw
      rw [h.listeners] at hw
      exact (List.mem_filter.mp hw).1
    obtain ⟨hbalanced, haborted, hqueue⟩ := hb.onAborts reason hmem hlisteners
    refine ⟨hbalanced, fun w hw => ?_⟩
    obtain ⟨hw, hout⟩ := hqueue w hw
    have hne : w.signal ≠ signal := by
      intro heq
      rw [h.listeners] at hout
      exact hout (List.mem_filter.mpr ⟨hw, decide_eq_true heq⟩)
    rw [haborted, List.lookup_cons, beq_false_of_ne hne]
    exact h.live w hw

theorem inv_init : ({} : Admission Reason).Inv limits where
  timers := rfl
  listeners := rfl
  active := rfl
  active_max := Nat.zero_le _
  waiting_max := Nat.zero_le _
  full h := absurd rfl h
  order := List.Pairwise.nil
  granted := rfl
  grants_order := List.Pairwise.nil
  grants_first _ h := by cases h
  accounted := List.Perm.refl _
  live _ h := by cases h

theorem Inv.step (h : a.Inv limits) (e : AdmissionEvent Reason) : (a.step limits e).Inv limits := by
  cases e with
  | acquire signal => exact h.acquire signal
  | release holder => exact h.release holder
  | abort signal reason => exact h.abort signal reason
  | deadline id => exact h.deadline id

/-- **The gate is balanced** after every sequence of events. -/
theorem inv_run (limits : AdmissionLimits) (events : List (AdmissionEvent Reason)) :
    (run limits events).Inv limits := by
  have hrun : ∀ (events : List (AdmissionEvent Reason)) (a : Admission Reason), a.Inv limits →
      (events.foldl (fun a e => a.step limits e) a).Inv limits := by
    intro events
    induction events with
    | nil => exact fun _ h => h
    | cons e rest ih => exact fun a h => ih _ (h.step e)
  exact hrun events {} inv_init

end Invariant
end Admission
end PressLabz
