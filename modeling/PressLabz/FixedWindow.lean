import Mathlib.Data.List.Induction
import Mathlib.Order.Lattice

/-! # Counting in fixed windows

Calls come one after the other, each with the length of the window it would open.  The first
call opens one, and so does every call after its end; a call inside it only counts.  What is
said of the window at hand (`current`, `count`) is read off the calls themselves.
-/
namespace FixedWindow

structure Call where
  time : Nat
  length : Nat
  deriving DecidableEq

/-- When the window that the call opens is over. -/
def Call.ends (c : Call) : Nat := c.time + c.length

/-- The call that opened the last window, one call later. -/
def extend (opened : Option Call) (c : Call) : Option Call :=
  match opened with
  | none => some c
  | some o => if c.time < o.ends then some o else some c

/-- The call that opened the last window, of the calls with the oldest first. -/
def opener (calls : List Call) : Option Call := calls.foldl extend none

/-- The call that opened the window at hand. -/
def current (calls : List Call) (now : Nat) : Option Call :=
  (opener calls).filter fun o => now < o.ends

/-- The calls since the window was opened. -/
def count (calls : List Call) (o : Call) : Nat := calls.countP fun c => o.time ≤ c.time

/-- A list of calls up to now, in order, of which each would open a window that takes some time. -/
structure Timely (calls : List Call) (now : Nat) : Prop where
  order : calls.Pairwise fun c d => c.time ≤ d.time
  past : ∀ c ∈ calls, c.time ≤ now
  positive : ∀ c ∈ calls, 0 < c.length

section
variable {calls : List Call} {now : Nat} {o c : Call}

theorem timely_nil (now : Nat) : Timely [] now := ⟨.nil, nofun, nofun⟩

theorem Timely.later (h : Timely calls now) {now' : Nat} (hle : now ≤ now') :
    Timely calls now' :=
  { h with past := fun c hc => (h.past c hc).trans hle }

theorem Timely.concat (h : Timely calls now) {length : Nat} (hpos : 0 < length) :
    Timely (calls ++ [⟨now, length⟩]) now where
  order := List.pairwise_append.mpr ⟨h.order, List.pairwise_singleton _ _, fun c hc d hd => by
    rw [List.mem_singleton.mp hd]
    exact h.past c hc⟩
  past := by
    intro c hc
    rcases List.mem_append.mp hc with hc | hc
    · exact h.past c hc
    · exact (List.mem_singleton.mp hc) ▸ le_rfl
  positive := by
    intro c hc
    rcases List.mem_append.mp hc with hc | hc
    · exact h.positive c hc
    · rwa [List.mem_singleton.mp hc]

theorem opener_concat (calls : List Call) (c : Call) :
    opener (calls ++ [c]) = extend (opener calls) c := by
  rw [opener, List.foldl_append]
  rfl

theorem eq_nil_of_opener (h : opener calls = none) : calls = [] := by
  induction calls using List.reverseRecOn with
  | nil => rfl
  | append_singleton calls c _ =>
    rw [opener_concat] at h
    cases hold : opener calls with
    | none =>
      rw [hold] at h
      cases h
    | some last =>
      rw [hold, extend] at h
      split at h
      · cases h
      · cases h

theorem opener_mem (h : opener calls = some o) : o ∈ calls := by
  induction calls using List.reverseRecOn generalizing o with
  | nil => cases h
  | append_singleton calls c ih =>
    rw [opener_concat] at h
    cases hold : opener calls with
    | none =>
      rw [hold] at h
      obtain rfl := Option.some.inj h
      exact List.mem_append_right calls (List.mem_singleton_self c)
    | some last =>
      rw [hold, extend] at h
      split at h
      · exact List.mem_append_left _ (ih (hold.trans h))
      · obtain rfl := Option.some.inj h
        exact List.mem_append_right calls (List.mem_singleton_self c)

/-- No call comes after the end of the last window: it would have opened another. -/
theorem time_lt_ends (hpos : ∀ c ∈ calls, 0 < c.length)
    (horder : calls.Pairwise fun c d => c.time ≤ d.time) (h : opener calls = some o) :
    ∀ c ∈ calls, c.time < o.ends := by
  induction calls using List.reverseRecOn generalizing o with
  | nil => cases h
  | append_singleton calls c ih =>
    obtain ⟨hbefore, -, hlast⟩ := List.pairwise_append.mp horder
    have hposBefore : ∀ d ∈ calls, 0 < d.length := fun d hd => hpos d (List.mem_append_left _ hd)
    have hposLast : 0 < c.length :=
      hpos c (List.mem_append_right calls (List.mem_singleton_self c))
    have hself : c.time < c.ends := Nat.lt_add_of_pos_right hposLast
    have hopens : ∀ d ∈ calls ++ [c], d.time ≤ c.time := by
      intro d hd
      rcases List.mem_append.mp hd with hd | hd
      · exact hlast d hd c (List.mem_singleton_self c)
      · rw [List.mem_singleton.mp hd]
    rw [opener_concat] at h
    cases hold : opener calls with
    | none =>
      rw [hold] at h
      obtain rfl := Option.some.inj h
      exact fun d hd => (hopens d hd).trans_lt hself
    | some last =>
      rw [hold, extend] at h
      split at h
      · rename_i hinside
        obtain rfl := Option.some.inj h
        intro d hd
        rcases List.mem_append.mp hd with hd | hd
        · exact ih hposBefore hbefore hold d hd
        · rwa [List.mem_singleton.mp hd]
      · obtain rfl := Option.some.inj h
        exact fun d hd => (hopens d hd).trans_lt hself

theorem current_eq_some : current calls now = some o ↔ opener calls = some o ∧ now < o.ends := by
  rw [current, Option.filter_eq_some_iff, decide_eq_true_eq]

/-- With time only, the window at hand stays or ends. -/
theorem current_later {now' : Nat} (hle : now ≤ now') :
    current calls now' = (current calls now).filter fun o => now' < o.ends := by
  rw [current, current, Option.filter_filter]
  refine congrArg (Option.filter · _) (funext fun o => ?_)
  rw [Bool.eq_iff_iff, Bool.and_eq_true, decide_eq_true_eq, decide_eq_true_eq]
  exact ⟨fun h => ⟨hle.trans_lt h, h⟩, fun h => h.2⟩

/-- The call that opened the window is one of its calls. -/
theorem count_pos (h : opener calls = some o) : 0 < count calls o :=
  List.countP_pos_iff.mpr ⟨o, opener_mem h, decide_eq_true (Nat.le_refl o.time)⟩

/-- **A call inside the window** counts. -/
theorem current_continue (h : Timely calls now) (length : Nat)
    (hcurrent : current calls now = some o) :
    current (calls ++ [⟨now, length⟩]) now = some o ∧
      count (calls ++ [⟨now, length⟩]) o = count calls o + 1 := by
  obtain ⟨hopener, hinside⟩ := current_eq_some.mp hcurrent
  refine ⟨current_eq_some.mpr ⟨?_, hinside⟩, ?_⟩
  · rw [opener_concat, hopener, extend, if_pos hinside]
  · have hpast : o.time ≤ now := h.past o (opener_mem hopener)
    rw [count, List.countP_append, List.countP_singleton, if_pos (decide_eq_true hpast)]
    rfl

/-- **A call after the window** opens another, and is the first in it. -/
theorem current_open (h : Timely calls now) {length : Nat} (hpos : 0 < length)
    (hcurrent : current calls now = none) :
    current (calls ++ [⟨now, length⟩]) now = some ⟨now, length⟩ ∧
      count (calls ++ [⟨now, length⟩]) ⟨now, length⟩ = 1 := by
  have hself : now < (⟨now, length⟩ : Call).ends := Nat.lt_add_of_pos_right hpos
  have hnew : opener (calls ++ [⟨now, length⟩]) = some ⟨now, length⟩ ∧
      ∀ c ∈ calls, c.time < now := by
    rw [opener_concat]
    cases hold : opener calls with
    | none =>
      obtain rfl := eq_nil_of_opener hold
      exact ⟨rfl, nofun⟩
    | some last =>
      have hover : ¬ now < last.ends := by
        intro hinside
        rw [current_eq_some.mpr ⟨hold, hinside⟩] at hcurrent
        cases hcurrent
      refine ⟨by rw [extend, if_neg hover], fun c hc => ?_⟩
      exact (time_lt_ends h.positive h.order hold c hc).trans_le (not_lt.mp hover)
  refine ⟨current_eq_some.mpr ⟨hnew.1, hself⟩, ?_⟩
  have hnone : calls.countP (fun c => now ≤ c.time) = 0 :=
    List.countP_eq_zero.mpr fun c hc hle => by
      have hlt := hnew.2 c hc
      rw [decide_eq_true_eq] at hle
      omega
  rw [count, List.countP_append, hnone, List.countP_singleton,
    if_pos (decide_eq_true (Nat.le_refl now))]

end
end FixedWindow
