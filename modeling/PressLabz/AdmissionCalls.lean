import Mathlib.Data.Set.Card
import PressLabz.Admission

/-! # What the callers of the gate may rely on

The gate of the uploads in terms of the calls alone: who came with which signal, who
was answered what, and who called `release`.  Nothing the gate has written down for
itself is asked: a slot is held by whoever was given one and has not released it
(`Holds`), and whoever came and was not answered waits (`Waits`).

Which callers an event answers, and with what, is then a question of these alone
(`Answers`), and the code does so, event by event (`answers_iff`): a slot that is released
goes to whoever came first of those who wait, an abort and a deadline answer those whose
they are, and a second release of a slot does nothing (`admission_sound`).
-/
namespace PressLabz
namespace Admission
variable {Reason : Type}

section Calls

/-- The signals the callers came with, in the order in which they came. -/
def signals (events : List (AdmissionEvent Reason)) : List Nat :=
  events.filterMap fun
    | .acquire signal => some signal
    | _ => none

/-- The reason a signal was first aborted with. -/
def abortReason (events : List (AdmissionEvent Reason)) (signal : Nat) : Option Reason :=
  events.findSome? fun
    | .abort other reason => if other = signal then some reason else none
    | _ => none

variable (limits : AdmissionLimits) (events : List (AdmissionEvent Reason)) (id : Nat)

/-- The caller was given a slot. -/
def Granted : Prop := (id, .slot) ∈ (run limits events).outcomes

/-- The caller released the slot it had been given. -/
def Released : Prop :=
  ∃ before after, events = before ++ .release id :: after ∧ Granted limits before id

/-- The caller has a slot. -/
def Holds : Prop := Granted limits events id ∧ ¬ Released limits events id

/-- The caller has come, and was not answered. -/
def Waits : Prop :=
  id < (signals events).length ∧ ∀ outcome, (id, outcome) ∉ (run limits events).outcomes

/-- How many callers have a slot. -/
noncomputable def holding : Nat := Set.ncard {id | Holds limits events id}

/-- How many callers wait for a slot. -/
noncomputable def inLine : Nat := Set.ncard {id | Waits limits events id}

/-- An event answers a caller, with an outcome. -/
inductive Answers : AdmissionEvent Reason → Nat → AdmissionOutcome Reason → Prop
  /-- A caller whose signal was aborted before it came is told the reason. -/
  | gone {signal : Nat} {reason : Reason} : abortReason events signal = some reason →
      Answers (.acquire signal) (signals events).length (.aborted reason)
  /-- A caller that finds a slot free is given it. -/
  | free {signal : Nat} : abortReason events signal = none →
      holding limits events < limits.maxActive →
      Answers (.acquire signal) (signals events).length .slot
  /-- A caller is turned away where no slot is free and no more callers may wait. -/
  | saturated {signal : Nat} : abortReason events signal = none →
      holding limits events = limits.maxActive → inLine limits events = limits.maxWaiting →
      Answers (.acquire signal) (signals events).length .saturated
  /-- A slot that is released goes to whoever came first of those who wait. -/
  | handed {holder id : Nat} : Holds limits events holder → Waits limits events id →
      (∀ other, Waits limits events other → id ≤ other) → Answers (.release holder) id .slot
  /-- A caller that waits is told when its signal is aborted. -/
  | aborted {signal id : Nat} {reason : Reason} : Waits limits events id →
      (signals events)[id]? = some signal → Answers (.abort signal reason) id (.aborted reason)
  /-- A caller that waits is told when its time is over. -/
  | timeout {id : Nat} : Waits limits events id → Answers (.deadline id) id .timeout

variable {limits events id} {e : AdmissionEvent Reason}

theorem run_concat : run limits (events ++ [e]) = (run limits events).step limits e := by
  rw [run, run, List.foldl_append]
  rfl

theorem signals_concat : signals (events ++ [e]) = signals events ++ signals [e] :=
  List.filterMap_append

theorem abortReason_concat {signal : Nat} : abortReason (events ++ [e]) signal =
    (abortReason events signal).or (abortReason [e] signal) := List.findSome?_append

theorem released_concat : Released limits (events ++ [e]) id ↔
    Released limits events id ∨ e = .release id ∧ Granted limits events id := by
  constructor
  · rintro ⟨before, after, heq, hgranted⟩
    rcases List.eq_nil_or_concat after with rfl | ⟨rest, last, rfl⟩
    · obtain ⟨rfl, hlast⟩ := List.append_inj' heq rfl
      exact .inr ⟨List.head_eq_of_cons_eq hlast, hgranted⟩
    · rw [List.concat_eq_append, ← List.cons_append, ← List.append_assoc] at heq
      exact .inl ⟨before, rest, (List.append_inj' heq rfl).1, hgranted⟩
  · rintro (⟨before, after, rfl, hgranted⟩ | ⟨rfl, hgranted⟩)
    · exact ⟨before, after ++ [e], by rw [List.append_assoc, List.cons_append], hgranted⟩
    · exact ⟨events, [], rfl, hgranted⟩

/-! ### What an event records -/

section Records
variable (a : Admission Reason)

theorem onAborts_records (reason : Reason) (ws : List Waiter) :
    (ws.foldl (fun a w => a.onAbort reason w) a).outcomes =
        a.outcomes ++ ws.map (fun w => (w.id, .aborted reason)) ∧
      (ws.foldl (fun a w => a.onAbort reason w) a).slots = a.slots ∧
      (ws.foldl (fun a w => a.onAbort reason w) a).arrivals = a.arrivals ∧
      (ws.foldl (fun a w => a.onAbort reason w) a).aborted = a.aborted ∧
      (ws.foldl (fun a w => a.onAbort reason w) a).queue ⊆ a.queue := by
  induction ws generalizing a with
  | nil => exact ⟨(List.append_nil _).symm, rfl, rfl, rfl, List.Subset.refl _⟩
  | cons w rest ih =>
    obtain ⟨houtcomes, hslots, harrivals, haborted, hqueue⟩ := ih (a.onAbort reason w)
    exact ⟨houtcomes.trans (List.append_assoc a.outcomes [_] _), hslots, harrivals, haborted,
      List.Subset.trans hqueue List.erase_subset⟩

/-- Nothing that was answered is taken back. -/
theorem outcomes_step (limits : AdmissionLimits) (e : AdmissionEvent Reason) :
    ∃ new, (a.step limits e).outcomes = a.outcomes ++ new := by
  cases e with
  | acquire signal =>
    rw [step, acquire]
    split
    · exact ⟨_, rfl⟩
    · split
      · exact ⟨_, rfl⟩
      · split
        · exact ⟨_, rfl⟩
        · exact ⟨[], (List.append_nil _).symm⟩
  | release holder =>
    rw [step, release]
    split
    · exact ⟨[], (List.append_nil _).symm⟩
    · split
      · exact ⟨[], (List.append_nil _).symm⟩
      · rw [passOn]
        split
        · exact ⟨_, rfl⟩
        · exact ⟨[], (List.append_nil _).symm⟩
  | abort signal reason =>
    rw [step, abort]
    split
    · exact ⟨[], (List.append_nil _).symm⟩
    · exact ⟨_, (onAborts_records _ reason _).1⟩
  | deadline id =>
    rw [step, deadline]
    split
    · exact ⟨[], (List.append_nil _).symm⟩
    · exact ⟨_, rfl⟩

end Records

theorem outcomes_run (limits : AdmissionLimits) (events later : List (AdmissionEvent Reason)) :
    ∃ new, (run limits (events ++ later)).outcomes = (run limits events).outcomes ++ new := by
  induction later using List.reverseRecOn with
  | nil => exact ⟨[], by rw [List.append_nil, List.append_nil]⟩
  | append_singleton later e ih =>
    obtain ⟨new, hnew⟩ := ih
    obtain ⟨more, hmore⟩ := outcomes_step (run limits (events ++ later)) limits e
    exact ⟨new ++ more, by rw [← List.append_assoc, run_concat, hmore, hnew, List.append_assoc]⟩

theorem Granted.append (h : Granted limits events id) (later : List (AdmissionEvent Reason)) :
    Granted limits (events ++ later) id := by
  obtain ⟨new, hnew⟩ := outcomes_run limits events later
  rw [Granted, hnew]
  exact List.mem_append_left _ h

theorem Released.granted (h : Released limits events id) : Granted limits events id := by
  obtain ⟨before, after, rfl, hgranted⟩ := h
  exact Granted.append hgranted _

/-! ### The variables as the calls tell them -/

theorem granted_iff : Granted limits events id ↔
    ∃ slot ∈ (run limits events).slots, slot.holder = id := by
  rw [Granted, ← mem_grants, ← (inv_run limits events).granted, List.mem_map]

/-- What the gate has written down is what was called. -/
structure Told (limits : AdmissionLimits) (events : List (AdmissionEvent Reason)) : Prop where
  arrivals : (run limits events).arrivals = (signals events).length
  signal : ∀ w ∈ (run limits events).queue, (signals events)[w.id]? = some w.signal
  aborted : ∀ signal, (run limits events).aborted.lookup signal = abortReason events signal
  released : ∀ slot ∈ (run limits events).slots,
    slot.released = true ↔ Released limits events slot.holder

theorem Told.granted_lt (h : Told limits events) (hgranted : Granted limits events id) :
    id < (signals events).length := by
  rw [← h.arrivals]
  exact (inv_run limits events).grants_lt (mem_grants.mpr hgranted)

/-- An event that is no `release` releases nothing. -/
theorem released_of_other (hother : ∀ holder, e ≠ .release holder) :
    Released limits (events ++ [e]) id ↔ Released limits events id :=
  released_concat.trans (or_iff_left fun h => hother id h.1)

theorem told_nil : Told limits ([] : List (AdmissionEvent Reason)) where
  arrivals := rfl
  signal _ h := by cases h
  aborted _ := rfl
  released _ h := by cases h

/-- A place in the order of arrival is kept. -/
theorem signal_concat {signal : Nat} (h : (signals events)[id]? = some signal) :
    (signals (events ++ [e]))[id]? = some signal := by
  rw [signals_concat]
  exact List.getElem?_append_left (List.getElem?_eq_some_iff.mp h).1 ▸ h

/-- An event that is no `acquire` and no `abort` writes down no call and no abort, so that
what the events tell of the gate stays told. -/
theorem Told.keep (h : Told limits events) (hcame : signals [e] = [])
    (hreason : ∀ s, abortReason [e] s = none)
    (harrivals : ((run limits events).step limits e).arrivals = (run limits events).arrivals)
    (hqueue : ((run limits events).step limits e).queue ⊆ (run limits events).queue)
    (haborted : ((run limits events).step limits e).aborted = (run limits events).aborted)
    (hreleased : ∀ slot ∈ ((run limits events).step limits e).slots,
      slot.released = true ↔ Released limits (events ++ [e]) slot.holder) :
    Told limits (events ++ [e]) where
  arrivals := by rw [run_concat, harrivals, signals_concat, hcame, List.append_nil, h.arrivals]
  signal w hw := by
    rw [run_concat] at hw
    exact signal_concat (h.signal w (hqueue hw))
  aborted s := by rw [run_concat, haborted, abortReason_concat, hreason, Option.or_none, h.aborted]
  released := by rwa [run_concat]

theorem Told.acquire (h : Told limits events) (signal : Nat) :
    Told limits (events ++ [.acquire signal]) := by
  have hcame : signals (events ++ [.acquire signal]) = signals events ++ [signal] := signals_concat
  have hreason : ∀ s, abortReason (events ++ [.acquire signal]) s = abortReason events s :=
    fun s => abortReason_concat.trans (Option.or_none)
  have hslots : ∀ slot ∈ (run limits events).slots,
      slot.released = true ↔ Released limits (events ++ [.acquire signal]) slot.holder :=
    fun slot hslot => (h.released slot hslot).trans (released_of_other (by simp)).symm
  have hlength : (run limits events).arrivals + 1 =
      (signals (events ++ [.acquire signal])).length := by
    rw [hcame, List.length_append, h.arrivals]
    rfl
  have hlookup : ∀ s, (run limits events).aborted.lookup s =
      abortReason (events ++ [.acquire signal]) s := fun s => (h.aborted s).trans (hreason s).symm
  have hqueue : ∀ w ∈ (run limits events).queue,
      (signals (events ++ [.acquire signal]))[w.id]? = some w.signal :=
    fun w hw => signal_concat (h.signal w hw)
  have hrun : run limits (events ++ [.acquire signal]) =
      (run limits events).acquire limits signal := run_concat
  rw [Admission.acquire] at hrun
  split at hrun
  · exact ⟨hrun ▸ hlength, hrun ▸ hqueue, hrun ▸ hlookup, hrun ▸ hslots⟩
  · split at hrun
    · refine ⟨hrun ▸ hlength, hrun ▸ hqueue, hrun ▸ hlookup, ?_⟩
      rw [hrun]
      intro slot hslot
      rcases List.mem_append.mp hslot with hslot | hslot
      · exact hslots slot hslot
      · -- the new slot is of a caller who had none to release
        obtain rfl := List.mem_singleton.mp hslot
        refine iff_of_false (by simp) fun hreleased => ?_
        have hlt := h.granted_lt ((released_of_other (by simp)).mp hreleased).granted
        rw [← h.arrivals] at hlt
        exact lt_irrefl _ hlt
    · split at hrun
      · exact ⟨hrun ▸ hlength, hrun ▸ hqueue, hrun ▸ hlookup, hrun ▸ hslots⟩
      · refine ⟨hrun ▸ hlength, ?_, hrun ▸ hlookup, hrun ▸ hslots⟩
        rw [hrun]
        intro w hw
        rcases List.mem_append.mp hw with hw | hw
        · exact hqueue w hw
        · obtain rfl := List.mem_singleton.mp hw
          rw [hcame, h.arrivals]
          exact List.getElem?_concat_length

/-- **What a call of `release` does**: nothing where the slot was released before or was
never given, and else it marks the slot and passes the permit on. -/
theorem release_cases {a : Admission Reason} (hnodup : (a.slots.map Slot.holder).Nodup)
    (holder : Nat) :
    (a.release holder = a ∧ ∀ slot ∈ a.slots, slot.holder = holder → slot.released = true) ∨
      (∃ slot ∈ a.slots, slot.holder = holder ∧ slot.released = false) ∧
        a.release holder = (a.markReleased holder).passOn := by
  rw [Admission.release]
  split
  · rename_i hnone
    exact .inl ⟨rfl, fun slot hslot heq => by
      simpa [heq] using List.find?_eq_none.mp hnone slot hslot⟩
  · rename_i found hfind
    have hfound : found ∈ a.slots := List.mem_of_find?_eq_some hfind
    have hholder : found.holder = holder := by simpa using List.find?_some hfind
    split
    · rename_i hreleased
      refine .inl ⟨rfl, fun slot hslot heq => ?_⟩
      rwa [List.inj_on_of_nodup_map hnodup hslot hfound (heq.trans hholder.symm)]
    · rename_i hheld
      exact .inr ⟨⟨found, hfound, hholder, by simpa using hheld⟩, rfl⟩

theorem mem_markReleased {a : Admission Reason} {holder : Nat} {slot : Slot}
    (h : slot ∈ (a.markReleased holder).slots) : ∃ old ∈ a.slots, slot.holder = old.holder ∧
      (slot.released = true ↔ old.released = true ∨ old.holder = holder) := by
  obtain ⟨old, hold, rfl⟩ := List.mem_map.mp h
  refine ⟨old, hold, ?_⟩
  split
  · rename_i heq
    exact ⟨rfl, iff_of_true rfl (.inr heq)⟩
  · rename_i hne
    exact ⟨rfl, (or_iff_left hne).symm⟩

theorem passOn_records (a : Admission Reason) : a.passOn.arrivals = a.arrivals ∧
    a.passOn.aborted = a.aborted ∧ a.passOn.queue ⊆ a.queue ∧
    ∀ slot ∈ a.passOn.slots, slot ∈ a.slots ∨ ∃ w ∈ a.queue, slot = ⟨w.id, false⟩ := by
  rw [passOn]
  split
  · rename_i next rest hqueue
    refine ⟨rfl, rfl, ?_, fun slot hslot => ?_⟩
    · rw [hqueue]
      exact List.subset_cons_self _ _
    · rw [hqueue]
      exact (List.mem_append.mp hslot).imp_right fun hslot =>
        ⟨next, List.mem_cons_self, List.mem_singleton.mp hslot⟩
  · exact ⟨rfl, rfl, List.Subset.refl _, fun slot hslot => .inl hslot⟩

theorem Told.release (h : Told limits events) (holder : Nat) :
    Told limits (events ++ [.release holder]) := by
  have hinv := inv_run limits events
  rcases release_cases hinv.holders_nodup holder with
    ⟨hsame, hall⟩ | ⟨⟨found, hfound, hholder, -⟩, hpass⟩
  · have hsame : (run limits events).step limits (.release holder) = run limits events := hsame
    refine h.keep rfl (fun _ => rfl) (by rw [hsame]) ?_ (by rw [hsame]) ?_
    · rw [hsame]
      exact List.Subset.refl _
    · rw [hsame]
      intro slot hslot
      rw [released_concat, ← h.released slot hslot]
      refine (or_iff_left_of_imp fun hcall => ?_).symm
      exact hall slot hslot (AdmissionEvent.release.inj hcall.1).symm
  · have hpass : (run limits events).step limits (.release holder) =
        ((run limits events).markReleased holder).passOn := hpass
    obtain ⟨harrivals, haborted, hqueue, hslots⟩ :=
      passOn_records ((run limits events).markReleased holder)
    refine h.keep rfl (fun _ => rfl) (hpass ▸ harrivals) (hpass ▸ hqueue) (hpass ▸ haborted) ?_
    rw [hpass]
    intro slot hslot
    rw [released_concat]
    rcases hslots slot hslot with hslot | ⟨w, hw, rfl⟩
    · obtain ⟨old, hold, hsame, hmarked⟩ := mem_markReleased hslot
      rw [hmarked, h.released old hold, hsame]
      refine or_congr_right ⟨fun heq => ⟨by rw [heq], granted_iff.mpr ⟨old, hold, rfl⟩⟩,
        fun hcall => (AdmissionEvent.release.inj hcall.1).symm⟩
    · -- who was in the queue had no slot before
      have hnone : ¬ Granted limits events w.id := fun hgranted =>
        lt_irrefl _ (hinv.grants_first w.id (mem_grants.mpr hgranted) w hw)
      exact iff_of_false (by simp) fun hreleased =>
        hreleased.elim (fun hreleased => hnone hreleased.granted) fun hcall => hnone hcall.2

theorem Told.deadline (h : Told limits events) (id : Nat) :
    Told limits (events ++ [.deadline id]) := by
  have hslots : ∀ slot ∈ (run limits events).slots,
      slot.released = true ↔ Released limits (events ++ [.deadline id]) slot.holder :=
    fun slot hslot => (h.released slot hslot).trans (released_of_other (by simp)).symm
  have hstep : (run limits events).step limits (.deadline id) = (run limits events).deadline id :=
    rfl
  rw [Admission.deadline] at hstep
  split at hstep
  · refine h.keep rfl (fun _ => rfl) (by rw [hstep]) ?_ (by rw [hstep]) (by rwa [hstep])
    rw [hstep]
    exact List.Subset.refl _
  · refine h.keep rfl (fun _ => rfl) (by rw [hstep]; rfl) ?_ (by rw [hstep]; rfl) (by rwa [hstep])
    rw [hstep]
    exact List.erase_subset

theorem Told.abort (h : Told limits events) (signal : Nat) (reason : Reason) :
    Told limits (events ++ [.abort signal reason]) := by
  have hcame : signals (events ++ [.abort signal reason]) = signals events :=
    signals_concat.trans (List.append_nil _)
  have hslots : ∀ slot ∈ (run limits events).slots,
      slot.released = true ↔ Released limits (events ++ [.abort signal reason]) slot.holder :=
    fun slot hslot => (h.released slot hslot).trans (released_of_other (by simp)).symm
  have hone : ∀ s, abortReason [.abort signal reason] s =
      if signal = s then some reason else none := by
    intro s
    rw [abortReason, List.findSome?_cons]
    split <;> simp_all
  have hrun : run limits (events ++ [.abort signal reason]) =
      (run limits events).abort signal reason := run_concat
  rw [Admission.abort] at hrun
  split at hrun
  · rename_i first hfirst
    refine ⟨?_, ?_, fun s => ?_, hrun ▸ hslots⟩
    · rw [hrun, hcame, h.arrivals]
    · rw [hrun, hcame]
      exact h.signal
    · -- a second abort of a signal is none
      rw [hrun, abortReason_concat, hone, ← h.aborted]
      by_cases hs : signal = s
      · rw [← hs, hfirst]
        rfl
      · rw [if_neg hs, Option.or_none]
  · rename_i hnone
    obtain ⟨-, hkept, harrivals, haborted, hqueue⟩ := onAborts_records
      { run limits events with aborted := (signal, reason) :: (run limits events).aborted } reason
      ((run limits events).listeners.filter fun w => w.signal = signal)
    refine ⟨?_, ?_, fun s => ?_, ?_⟩
    · rw [hrun, harrivals, hcame]
      exact h.arrivals
    · rw [hrun, hcame]
      exact fun w hw => h.signal w (hqueue hw)
    · rw [hrun, haborted, List.lookup_cons, abortReason_concat, hone, h.aborted]
      by_cases hs : signal = s
      · subst hs
        rw [beq_self_eq_true, ← h.aborted, hnone, if_pos rfl]
        rfl
      · rw [beq_false_of_ne (Ne.symm hs), if_neg hs, Option.or_none]
    · rw [hrun, hkept]
      exact hslots

/-- **The gate knows of every call** what it has to. -/
theorem told_run (limits : AdmissionLimits) (events : List (AdmissionEvent Reason)) :
    Told limits events := by
  induction events using List.reverseRecOn with
  | nil => exact told_nil
  | append_singleton events e ih =>
    cases e with
    | acquire signal => exact ih.acquire signal
    | release holder => exact ih.release holder
    | abort signal reason => exact ih.abort signal reason
    | deadline id => exact ih.deadline id

/-! ### Who waits and who has a slot -/

theorem waits_iff : Waits limits events id ↔ ∃ w ∈ (run limits events).queue, w.id = id := by
  have haccounted := (inv_run limits events).accounted
  rw [(told_run limits events).arrivals] at haccounted
  have hnodup := haccounted.nodup_iff.mpr List.nodup_range
  constructor
  · rintro ⟨hcame, hnone⟩
    rcases List.mem_append.mp (haccounted.mem_iff.mpr (List.mem_range.mpr hcame)) with h | h
    · obtain ⟨⟨_, outcome⟩, hmem, rfl⟩ := List.mem_map.mp h
      exact absurd hmem (hnone outcome)
    · exact List.mem_map.mp h
  · rintro ⟨w, hw, rfl⟩
    have hmem := List.mem_map_of_mem (f := Waiter.id) hw
    refine ⟨List.mem_range.mp (haccounted.mem_iff.mp (List.mem_append_right _ hmem)), ?_⟩
    intro outcome houtcome
    exact (List.nodup_append.mp hnodup).2.2 w.id
      (List.mem_map_of_mem (f := Prod.fst) houtcome) w.id hmem rfl

theorem holds_iff : Holds limits events id ↔
    ∃ slot ∈ (run limits events).held, slot.holder = id := by
  have htold := told_run limits events
  constructor
  · rintro ⟨hgranted, hheld⟩
    obtain ⟨slot, hslot, rfl⟩ := granted_iff.mp hgranted
    refine ⟨slot, List.mem_filter.mpr ⟨hslot, ?_⟩, rfl⟩
    rw [Bool.not_eq_true', Bool.eq_false_iff]
    exact fun hreleased => hheld ((htold.released slot hslot).mp hreleased)
  · rintro ⟨slot, hslot, rfl⟩
    obtain ⟨hslot, hheld⟩ := List.mem_filter.mp hslot
    refine ⟨granted_iff.mpr ⟨slot, hslot, rfl⟩, fun hreleased => ?_⟩
    rw [(htold.released slot hslot).mpr hreleased] at hheld
    cases hheld

/-- A set that is listed without repetition has as many members as the list. -/
theorem ncard_of_list {ids : List Nat} {p : Nat → Prop} (hnodup : ids.Nodup)
    (h : ∀ id, p id ↔ id ∈ ids) : Set.ncard {id | p id} = ids.length := by
  rw [← List.toFinset_card_of_nodup hnodup, ← Set.ncard_coe_finset]
  congr 1
  ext id
  simp [h]

theorem holding_eq : holding limits events = (run limits events).held.length := by
  have hnodup : ((run limits events).held.map Slot.holder).Nodup :=
    (inv_run limits events).holders_nodup.sublist (List.filter_sublist.map _)
  rw [holding, ncard_of_list hnodup fun id => holds_iff.trans List.mem_map.symm, List.length_map]

theorem inLine_eq : inLine limits events = (run limits events).queue.length := by
  have hnodup : ((run limits events).queue.map Waiter.id).Nodup :=
    (inv_run limits events).order.imp fun hlt => Nat.ne_of_lt hlt
  rw [inLine, ncard_of_list hnodup fun id => waits_iff.trans List.mem_map.symm, List.length_map]

/-! ### Whom an event answers -/

variable {outcome : AdmissionOutcome Reason}

theorem answers_acquire (signal : Nat) :
    (id, outcome) ∈ ((run limits events).acquire limits signal).outcomes ↔
      (id, outcome) ∈ (run limits events).outcomes ∨
        Answers limits events (.acquire signal) id outcome := by
  have htold := told_run limits events
  have hinv := inv_run limits events
  have hactive : (run limits events).active = holding limits events := by
    rw [hinv.active, holding_eq]
  have hmax : holding limits events ≤ limits.maxActive := holding_eq ▸ hinv.active_max
  have hwaiting : (run limits events).queue.length ≤ limits.maxWaiting := hinv.waiting_max
  rw [Admission.acquire]
  split
  · -- The signal was aborted before the call: the caller gets its reason.
    rename_i reason hlookup
    rw [htold.aborted] at hlookup
    refine List.mem_append.trans (or_congr_right ⟨fun h => ?_, fun h => ?_⟩)
    · obtain ⟨rfl, rfl⟩ := Prod.mk.inj (List.mem_singleton.mp h)
      rw [htold.arrivals]
      exact .gone hlookup
    · cases h with
      | gone hreason =>
        rw [hlookup] at hreason
        obtain rfl := Option.some.inj hreason
        rw [← htold.arrivals]
        exact List.mem_singleton_self _
      | free hreason _ => rw [hlookup] at hreason; cases hreason
      | saturated hreason _ _ => rw [hlookup] at hreason; cases hreason
  · rename_i hlookup
    rw [htold.aborted] at hlookup
    split
    · -- A slot is free.
      rename_i hfree
      refine List.mem_append.trans (or_congr_right ⟨fun h => ?_, fun h => ?_⟩)
      · obtain ⟨rfl, rfl⟩ := Prod.mk.inj (List.mem_singleton.mp h)
        rw [htold.arrivals]
        exact .free hlookup (by omega)
      · cases h with
        | gone hreason => rw [hlookup] at hreason; cases hreason
        | free _ _ =>
          rw [← htold.arrivals]
          exact List.mem_singleton_self _
        | saturated _ hfull _ => omega
    · rename_i hfull
      split
      · -- The queue is full.
        rename_i hqueue
        refine List.mem_append.trans (or_congr_right ⟨fun h => ?_, fun h => ?_⟩)
        · obtain ⟨rfl, rfl⟩ := Prod.mk.inj (List.mem_singleton.mp h)
          rw [htold.arrivals]
          exact .saturated hlookup (by omega) (by rw [inLine_eq]; omega)
        · cases h with
          | gone hreason => rw [hlookup] at hreason; cases hreason
          | free _ hfree => omega
          | saturated _ _ _ =>
            rw [← htold.arrivals]
            exact List.mem_singleton_self _
      · -- The caller waits, and nobody is answered.
        rename_i hqueue
        refine (or_iff_left fun h => ?_).symm
        cases h with
        | gone hreason => rw [hlookup] at hreason; cases hreason
        | free _ hfree => omega
        | saturated _ _ hfull => rw [inLine_eq] at hfull; omega

theorem answers_release (holder : Nat) :
    (id, outcome) ∈ ((run limits events).release holder).outcomes ↔
      (id, outcome) ∈ (run limits events).outcomes ∨
        Answers limits events (.release holder) id outcome := by
  have hinv := inv_run limits events
  rcases release_cases hinv.holders_nodup holder with
    ⟨hsame, hall⟩ | ⟨⟨found, hfound, hholder, hheld⟩, hpass⟩
  · rw [hsame]
    refine (or_iff_left fun h => ?_).symm
    cases h with
    | handed hholds _ _ =>
      obtain ⟨slot, hslot, heq⟩ := holds_iff.mp hholds
      obtain ⟨hslot, hheld⟩ := List.mem_filter.mp hslot
      rw [hall slot hslot heq] at hheld
      cases hheld
  · have hholds : Holds limits events holder :=
      holds_iff.mpr ⟨found, List.mem_filter.mpr ⟨hfound, by simp [hheld]⟩, hholder⟩
    have horder := hinv.order
    rw [hpass, passOn]
    split
    · rename_i next rest hqueue
      have hqueue : (run limits events).queue = next :: rest := hqueue
      rw [hqueue, List.map_cons, List.pairwise_cons] at horder
      have hnext : Waits limits events next.id :=
        waits_iff.mpr ⟨next, by rw [hqueue]; exact List.mem_cons_self, rfl⟩
      -- the head of the queue came first
      have hfirst : ∀ other, Waits limits events other → next.id ≤ other := by
        intro other hother
        obtain ⟨w, hw, rfl⟩ := waits_iff.mp hother
        rw [hqueue] at hw
        rcases List.mem_cons.mp hw with rfl | hw
        · exact Nat.le_refl _
        · exact Nat.le_of_lt (horder.1 w.id (List.mem_map_of_mem hw))
      refine List.mem_append.trans (or_congr_right ⟨fun h => ?_, fun h => ?_⟩)
      · obtain ⟨rfl, rfl⟩ := Prod.mk.inj (List.mem_singleton.mp h)
        exact .handed hholds hnext hfirst
      · cases h with
        | handed _ hwaits hleast =>
          rw [Nat.le_antisymm (hleast _ hnext) (hfirst _ hwaits)]
          exact List.mem_singleton_self _
    · rename_i hqueue
      have hqueue : (run limits events).queue = [] := hqueue
      refine (or_iff_left fun h => ?_).symm
      cases h with
      | handed _ hwaits _ =>
        obtain ⟨w, hw, -⟩ := waits_iff.mp hwaits
        rw [hqueue] at hw
        cases hw

theorem answers_abort (signal : Nat) (reason : Reason) :
    (id, outcome) ∈ ((run limits events).abort signal reason).outcomes ↔
      (id, outcome) ∈ (run limits events).outcomes ∨
        Answers limits events (.abort signal reason) id outcome := by
  have htold := told_run limits events
  have hinv := inv_run limits events
  rw [Admission.abort]
  split
  · rename_i first hfirst
    refine (or_iff_left fun h => ?_).symm
    cases h with
    | aborted hwaits hsignal =>
      -- nobody waits any more whose signal was aborted
      obtain ⟨w, hw, rfl⟩ := waits_iff.mp hwaits
      obtain rfl := Option.some.inj ((htold.signal w hw).symm.trans hsignal)
      rw [hinv.live w hw] at hfirst
      cases hfirst
  · rw [(onAborts_records _ reason _).1, List.mem_append]
    refine or_congr_right ⟨fun h => ?_, fun h => ?_⟩
    · obtain ⟨w, hw, heq⟩ := List.mem_map.mp h
      obtain ⟨rfl, rfl⟩ := Prod.mk.inj heq
      obtain ⟨hw, hsignal⟩ := List.mem_filter.mp hw
      have hw : w ∈ (run limits events).queue := hinv.listeners ▸ hw
      exact .aborted (waits_iff.mpr ⟨w, hw, rfl⟩)
        ((htold.signal w hw).trans (congrArg some (of_decide_eq_true hsignal)))
    · cases h with
      | aborted hwaits hsignal =>
        obtain ⟨w, hw, rfl⟩ := waits_iff.mp hwaits
        have heq := Option.some.inj ((htold.signal w hw).symm.trans hsignal)
        exact List.mem_map.mpr ⟨w, List.mem_filter.mpr
          ⟨hinv.listeners.symm ▸ hw, decide_eq_true heq⟩, rfl⟩

theorem answers_deadline (late : Nat) :
    (id, outcome) ∈ ((run limits events).deadline late).outcomes ↔
      (id, outcome) ∈ (run limits events).outcomes ∨
        Answers limits events (.deadline late) id outcome := by
  have hinv := inv_run limits events
  rw [Admission.deadline, hinv.timers]
  split
  · rename_i hnone
    refine (or_iff_left fun h => ?_).symm
    cases h with
    | timeout hwaits =>
      obtain ⟨w, hw, heq⟩ := waits_iff.mp hwaits
      simpa [heq] using List.find?_eq_none.mp hnone w hw
  · rename_i w hfind
    have hw : w ∈ (run limits events).queue := List.mem_of_find?_eq_some hfind
    have hid : w.id = late := by simpa using List.find?_some hfind
    refine List.mem_append.trans (or_congr_right ⟨fun h => ?_, fun h => ?_⟩)
    · obtain ⟨rfl, rfl⟩ := Prod.mk.inj (List.mem_singleton.mp h)
      rw [hid]
      exact .timeout (waits_iff.mpr ⟨w, hw, hid⟩)
    · cases h with
      | timeout _ => exact List.mem_singleton.mpr (by rw [hid])

/-- **An event answers whom it should**, and nobody else. -/
theorem answers_iff (events : List (AdmissionEvent Reason)) (e : AdmissionEvent Reason) :
    (id, outcome) ∈ (run limits (events ++ [e])).outcomes ↔
      (id, outcome) ∈ (run limits events).outcomes ∨ Answers limits events e id outcome := by
  rw [run_concat]
  cases e with
  | acquire signal => exact answers_acquire signal
  | release holder => exact answers_release holder
  | abort signal reason => exact answers_abort signal reason
  | deadline late => exact answers_deadline late

end Calls
end Admission

/-! ## What callers may rely on -/

section Sound
open Admission
variable {Reason : Type}

/-- The gate after a list of events, as the calls among them tell it. -/
structure AdmissionSound (limits : AdmissionLimits) (events : List (AdmissionEvent Reason)) :
    Prop where
  /-- No permit is lost and none is made up. -/
  active : (run limits events).active = holding limits events
  active_max : holding limits events ≤ limits.maxActive
  waiting : (run limits events).waiting = inLine limits events
  waiting_max : inLine limits events ≤ limits.maxWaiting
  full : ∀ id, Waits limits events id → holding limits events = limits.maxActive
  /-- An event answers whom it should, with what it should, and nobody else. -/
  answered : ∀ e id outcome, (id, outcome) ∈ (run limits (events ++ [e])).outcomes ↔
    (id, outcome) ∈ (run limits events).outcomes ∨ Answers limits events e id outcome
  /-- Slots are given in the order of arrival, and who waits comes next in that order. -/
  fifo : (run limits events).grants.Pairwise (· < ·) ∧
    ∀ id other, Granted limits events id → Waits limits events other → id < other
  /-- Each caller is answered once at most, and nobody is answered who did not come. -/
  once : ((run limits events).outcomes.map Prod.fst).Nodup ∧
    ∀ id outcome, (id, outcome) ∈ (run limits events).outcomes → id < (signals events).length
  /-- A caller that was aborted, was turned away or waited too long is never given a slot. -/
  dropped : ∀ id outcome, (id, outcome) ∈ (run limits events).outcomes → outcome ≠ .slot →
    ∀ later, ¬ Granted limits (events ++ later) id
  /-- A caller that waits came with a signal that was not aborted. -/
  live : ∀ id, Waits limits events id →
    ∃ signal, (signals events)[id]? = some signal ∧ abortReason events signal = none
  /-- A caller has a timer and a listener exactly as long as it waits. -/
  watched : ∀ id, (Waits limits events id ↔ ∃ w ∈ (run limits events).timers, w.id = id) ∧
    (Waits limits events id ↔ ∃ w ∈ (run limits events).listeners, w.id = id)
  /-- To release a slot again changes nothing. -/
  twice : ∀ id, Released limits events id →
    run limits (events ++ [.release id]) = run limits events
  drained : (∀ id, Granted limits events id → Released limits events id) →
    (run limits events).active = 0 ∧ (run limits events).waiting = 0

variable {limits : AdmissionLimits} {events : List (AdmissionEvent Reason)} {id : Nat}

theorem outcomes_nodup : ((run limits events).outcomes.map Prod.fst).Nodup :=
  (List.nodup_append.mp
    ((inv_run limits events).accounted.nodup_iff.mpr List.nodup_range)).1

/-- A caller that was answered with anything but a slot was given none. -/
theorem not_granted {outcome : AdmissionOutcome Reason}
    (h : (id, outcome) ∈ (run limits events).outcomes) (houtcome : outcome ≠ .slot) :
    ¬ Granted limits events id := fun hgranted =>
  houtcome (congrArg Prod.snd (List.inj_on_of_nodup_map outcomes_nodup h hgranted rfl))

theorem full_of_waits (h : Waits limits events id) : holding limits events = limits.maxActive := by
  obtain ⟨w, hw, -⟩ := waits_iff.mp h
  rw [holding_eq, (inv_run limits events).full (List.ne_nil_of_mem hw)]

/-- A slot that was released is not released again. -/
theorem release_released (h : Released limits events id) :
    run limits (events ++ [.release id]) = run limits events := by
  rw [run_concat]
  rcases release_cases (inv_run limits events).holders_nodup id with
    ⟨hsame, -⟩ | ⟨⟨slot, hslot, rfl, hheld⟩, -⟩
  · exact hsame
  · rw [((told_run limits events).released slot hslot).mpr h] at hheld
    cases hheld

/-- **The gate of the uploads is sound**, for all limits and every order of events. -/
theorem admission_sound (limits : AdmissionLimits) (events : List (AdmissionEvent Reason)) :
    AdmissionSound limits events := by
  have hinv := inv_run limits events
  have htold := told_run limits events
  have hactive : (run limits events).active = holding limits events := by
    rw [hinv.active, holding_eq]
  have hwaiting : (run limits events).waiting = inLine limits events := inLine_eq.symm
  refine ⟨hactive, holding_eq ▸ hinv.active_max, hwaiting, inLine_eq ▸ hinv.waiting_max,
    fun id => full_of_waits, fun e id outcome => answers_iff events e,
    ⟨hinv.grants_order, fun id other hgranted hwaits => ?_⟩,
    ⟨outcomes_nodup, fun id outcome hmem => ?_⟩, fun id outcome hmem houtcome later => ?_,
    fun id hwaits => ?_, fun id => ?_, fun id => release_released, fun hall => ?_⟩
  · obtain ⟨w, hw, rfl⟩ := waits_iff.mp hwaits
    exact hinv.grants_first id (mem_grants.mpr hgranted) w hw
  · have hcame := hinv.accounted.mem_iff.mp
      (List.mem_append_left _ (List.mem_map_of_mem (f := Prod.fst) hmem))
    exact htold.arrivals ▸ List.mem_range.mp hcame
  · obtain ⟨new, hnew⟩ := outcomes_run limits events later
    have hanswered : (id, outcome) ∈ (run limits (events ++ later)).outcomes := by
      rw [hnew]
      exact List.mem_append_left _ hmem
    exact not_granted hanswered houtcome
  · obtain ⟨w, hw, rfl⟩ := waits_iff.mp hwaits
    exact ⟨w.signal, htold.signal w hw, htold.aborted w.signal ▸ hinv.live w hw⟩
  · rw [hinv.timers, hinv.listeners]
    exact ⟨waits_iff, waits_iff⟩
  · -- Nobody has a slot, so nobody waits for one.
    have hnone : holding limits events = 0 :=
      ncard_of_list List.nodup_nil fun id => iff_of_false (fun h => h.2 (hall id h.1))
        List.not_mem_nil
    rw [hactive, hnone]
    refine ⟨rfl, List.length_eq_zero_iff.mpr (List.eq_nil_iff_forall_not_mem.mpr fun w hw => ?_)⟩
    have hfull := full_of_waits (waits_iff.mpr ⟨w, hw, rfl⟩)
    have hpos := limits.maxActive_range.1
    omega

end Sound
end PressLabz
