import Mathlib.Data.List.Basic
import Mathlib.Data.List.Induction
import Mathlib.Data.List.Sort
import Mathlib.Order.Defs.LinearOrder

/-! # Hooks

`packages/core/src/hooks.ts`: handlers are registered under the name of a hook, as actions or as
filters, and each registration hands out the function that takes it back.  After any calls of
these, the handlers of a hook are the ones that were registered and not taken back, and
`byPriority` puts them in the one order of their priorities and registrations
(`mem_byPriority`, `byPriority_sorted`).

`V` are the values of the hooks, none of which is a promise; `E` is what can be thrown; `P` are
the priorities.  Two handlers are told apart by their registrations, so one that answers
differently each time it is called is covered too.
-/
namespace PressLabz

/-! ## Handlers -/

structure HookContext where
  locale : Option String := none
  /-- `null` is the system itself. -/
  actorId : Option (Option String) := none

/-- How a promise ends, or anything else with a `then`; `late` is when the timer of `timeoutMs`
has gone off. -/
inductive Settling (V E : Type) where
  | fulfils (value : V) (late : Bool)
  | rejects (error : E) (late : Bool)
  | never

/-- What a handler returns when it is called. -/
inductive Work (V E : Type) where
  | value (value : V)
  /-- An instance of `Promise`. -/
  | promise (settling : Settling V E)
  /-- Any other object with a `then`. -/
  | thenable (settling : Settling V E)

/-- What the call of a handler comes to. -/
inductive Called (V E : Type) where
  | returns (work : Work V E)
  | throws (error : E)

inductive HookKind where
  | action
  | filter
  deriving DecidableEq

structure HandlerOptions (P : Type) where
  priority : Option P := none
  label : Option String := none

structure Registration (V E P : Type) where
  handler : V → HookContext → Called V E
  priority : P
  label : String
  order : Nat

/-! ## The registry -/

section Registry
variable {V E P : Type}

/-- What `add` hands out, with what it remembers: the map, the name and the registration. -/
structure Unregister where
  kind : HookKind
  name : String
  order : Nat

/-- The state of `createHooks`: its two maps and its counter, and the functions that were
handed out. -/
structure Hooks (V E P : Type) where
  lists : HookKind → String → Option (List (Registration V E P)) := fun _ _ => none
  counter : Nat := 0
  issued : List Unregister := []

/-- The calls that may be made of a registry of hooks. -/
inductive HookCall (V E P : Type) where
  | add (kind : HookKind) (name : String) (handler : V → HookContext → Called V E)
    (options : Option (HandlerOptions P))
  /-- Calls the function that the registration `n` handed out. -/
  | unregister (n : Nat)

namespace Hooks

def get (hooks : Hooks V E P) (kind : HookKind) (name : String) : List (Registration V E P) :=
  (hooks.lists kind name).getD []

def set (hooks : Hooks V E P) (kind : HookKind) (name : String)
    (list : List (Registration V E P)) : Hooks V E P :=
  { hooks with
    lists := fun kind' name' =>
      if kind' = kind ∧ name' = name then some list else hooks.lists kind' name' }

/-- A registration, with the defaults for what its options leave out. -/
def registration [OfNat P 10] (name : String) (handler : V → HookContext → Called V E)
    (options : Option (HandlerOptions P)) (order : Nat) : Registration V E P where
  handler
  priority := (options.bind (·.priority)).getD 10
  label := (options.bind (·.label)).getD name
  order

def add [OfNat P 10] (hooks : Hooks V E P) (kind : HookKind) (name : String)
    (handler : V → HookContext → Called V E) (options : Option (HandlerOptions P)) : Hooks V E P :=
  let registration := registration name handler options hooks.counter
  let list :=
    match hooks.lists kind name with
    | some existing => existing ++ [registration]
    | none => [registration]
  { hooks.set kind name list with
    counter := hooks.counter + 1
    issued := hooks.issued ++ [⟨kind, name, hooks.counter⟩] }

def unregister (hooks : Hooks V E P) (u : Unregister) : Hooks V E P :=
  match hooks.lists u.kind u.name with
  | none => hooks
  | some list => hooks.set u.kind u.name (list.eraseP fun r => r.order = u.order)

def step [OfNat P 10] (hooks : Hooks V E P) : HookCall V E P → Hooks V E P
  | .add kind name handler options => hooks.add kind name handler options
  | .unregister n =>
    match hooks.issued[n]? with
    | none => hooks
    | some u => hooks.unregister u

/-- `createHooks`, and calls of what it returns. -/
def after [OfNat P 10] (calls : List (HookCall V E P)) : Hooks V E P := calls.foldl step {}

end Hooks

/-- The order of the lists: `a.priority - b.priority || a.order - b.order` is not positive. -/
def Registration.le [LinearOrder P] (a b : Registration V E P) : Bool :=
  decide (a.priority < b.priority ∨ a.priority = b.priority ∧ a.order ≤ b.order)

def byPriority [LinearOrder P] (registrations : List (Registration V E P)) :
    List (Registration V E P) := registrations.mergeSort Registration.le

/-- One registration comes before another by its priority first, by its number second. -/
def Registration.Before [LT P] (a b : Registration V E P) : Prop :=
  a.priority < b.priority ∨ a.priority = b.priority ∧ a.order < b.order

/-- The registrations that a list of calls makes. -/
def registrations : List (HookCall V E P) → Nat
  | [] => 0
  | .add .. :: calls => registrations calls + 1
  | .unregister _ :: calls => registrations calls

/-- **Currently registered**: a call registered it, and no call since took it back. -/
def Current [OfNat P 10] (calls : List (HookCall V E P)) (kind : HookKind) (name : String)
    (r : Registration V E P) : Prop :=
  ∃ before handler options since, calls = before ++ .add kind name handler options :: since ∧
    r = Hooks.registration name handler options (registrations before) ∧
    .unregister r.order ∉ since

/-! ## What is registered -/

section Registered
variable [OfNat P 10] {calls : List (HookCall V E P)} {call : HookCall V E P} {kind : HookKind}
  {name : String} {r : Registration V E P}

omit [OfNat P 10] in
theorem registrations_append (calls more : List (HookCall V E P)) :
    registrations (calls ++ more) = registrations calls + registrations more := by
  induction calls with
  | nil => exact (Nat.zero_add _).symm
  | cons call calls ih =>
    cases call with
    | add => rw [List.cons_append, registrations, registrations, ih, Nat.add_right_comm]
    | unregister => rw [List.cons_append, registrations, registrations, ih]

/-- One more registration adds one handler to those that are registered. -/
theorem current_add {kind' : HookKind} {name' : String} {handler : V → HookContext → Called V E}
    {options : Option (HandlerOptions P)} :
    Current (calls ++ [.add kind' name' handler options]) kind name r ↔
      Current calls kind name r ∨ kind = kind' ∧ name = name' ∧
        r = Hooks.registration name handler options (registrations calls) := by
  constructor
  · rintro ⟨before, h, o, since, heq, hr, hnot⟩
    induction since using List.reverseRecOn with
    | nil =>
      obtain ⟨rfl, hlast⟩ := List.append_inj' heq rfl
      cases hlast
      exact .inr ⟨rfl, rfl, hr⟩
    | append_singleton since last _ =>
      rw [← List.cons_append, ← List.append_assoc] at heq
      obtain ⟨rfl, -⟩ := List.append_inj' heq rfl
      exact .inl ⟨before, h, o, since, rfl, hr, fun hmem => hnot (List.mem_append_left _ hmem)⟩
  · rintro (⟨before, h, o, since, rfl, hr, hnot⟩ | ⟨rfl, rfl, hr⟩)
    · refine ⟨before, h, o, since ++ [.add kind' name' handler options], by simp, hr, ?_⟩
      simpa using hnot
    · exact ⟨calls, handler, options, [], rfl, hr, List.not_mem_nil⟩

theorem current_unregister {n : Nat} :
    Current (calls ++ [.unregister n]) kind name r ↔ Current calls kind name r ∧ r.order ≠ n := by
  constructor
  · rintro ⟨before, h, o, since, heq, hr, hnot⟩
    induction since using List.reverseRecOn with
    | nil =>
      obtain ⟨-, hlast⟩ := List.append_inj' heq rfl
      cases hlast
    | append_singleton since last _ =>
      rw [← List.cons_append, ← List.append_assoc] at heq
      obtain ⟨rfl, hlast⟩ := List.append_inj' heq rfl
      cases hlast
      rw [List.mem_append, not_or] at hnot
      refine ⟨⟨before, h, o, since, rfl, hr, hnot.1⟩, fun horder => hnot.2 ?_⟩
      rw [horder]
      exact List.mem_singleton_self _
  · rintro ⟨⟨before, h, o, since, rfl, hr, hnot⟩, hne⟩
    refine ⟨before, h, o, since ++ [.unregister n], by simp, hr, ?_⟩
    simpa using ⟨hnot, hne⟩

/-- The registry after the calls: its lists hold what is registered, in the order in which it
was, and each function that was handed out knows the list of its registration. -/
structure Enrolled (hooks : Hooks V E P) (calls : List (HookCall V E P)) : Prop where
  counter : hooks.counter = registrations calls
  issued : hooks.issued.length = registrations calls
  own : ∀ n (u : Unregister), hooks.issued[n]? = some u → u.order = n
  current : ∀ kind name r, r ∈ hooks.get kind name ↔ Current calls kind name r
  known : ∀ kind name r, r ∈ hooks.get kind name →
    hooks.issued[r.order]? = some ⟨kind, name, r.order⟩
  order : ∀ kind name, (hooks.get kind name).Pairwise fun a b => a.order < b.order

theorem Enrolled.empty : Enrolled ({} : Hooks V E P) [] where
  counter := rfl
  issued := rfl
  own n u h := by cases h
  current kind name r := by
    refine iff_of_false List.not_mem_nil ?_
    rintro ⟨before, handler, options, since, heq, -⟩
    exact absurd heq (by simp)
  known kind name r h := absurd h List.not_mem_nil
  order kind name := List.Pairwise.nil

omit [OfNat P 10] in
theorem Hooks.get_set (hooks : Hooks V E P) (kind kind' : HookKind) (name name' : String)
    (list : List (Registration V E P)) :
    (hooks.set kind name list).get kind' name' =
      if kind' = kind ∧ name' = name then list else hooks.get kind' name' := by
  by_cases h : kind' = kind ∧ name' = name
  · simp only [Hooks.get, Hooks.set, if_pos h, Option.getD_some]
  · simp only [Hooks.get, Hooks.set, if_neg h]

theorem Hooks.get_add (hooks : Hooks V E P) (kind kind' : HookKind) (name name' : String)
    (handler : V → HookContext → Called V E) (options : Option (HandlerOptions P)) :
    (hooks.add kind name handler options).get kind' name' =
      if kind' = kind ∧ name' = name then
        hooks.get kind name ++ [Hooks.registration name handler options hooks.counter]
      else hooks.get kind' name' := by
  rw [← Hooks.get_set]
  cases hlist : hooks.lists kind name with
  | none =>
    have hget : hooks.get kind name = [] := by rw [Hooks.get, hlist, Option.getD_none]
    rw [hget, List.nil_append]
    simp only [Hooks.add, hlist]
    rfl
  | some existing =>
    have hget : hooks.get kind name = existing := by rw [Hooks.get, hlist, Option.getD_some]
    rw [hget]
    simp only [Hooks.add, hlist]
    rfl

omit [OfNat P 10] in
theorem Hooks.get_unregister (hooks : Hooks V E P) (u : Unregister) (kind : HookKind)
    (name : String) :
    (hooks.unregister u).get kind name =
      if kind = u.kind ∧ name = u.name then
        (hooks.get u.kind u.name).eraseP fun r => r.order = u.order
      else hooks.get kind name := by
  cases hlist : hooks.lists u.kind u.name with
  | none =>
    have hget : hooks.get u.kind u.name = [] := by rw [Hooks.get, hlist, Option.getD_none]
    simp only [hget, List.eraseP_nil, Hooks.unregister, hlist]
    by_cases hsame : kind = u.kind ∧ name = u.name
    · rw [if_pos hsame, hsame.1, hsame.2, hget]
    · rw [if_neg hsame]
  | some list =>
    have hget : hooks.get u.kind u.name = list := by rw [Hooks.get, hlist, Option.getD_some]
    rw [hget, ← Hooks.get_set, Hooks.unregister, hlist]

omit [OfNat P 10] in
theorem Hooks.unregister_rest (hooks : Hooks V E P) (u : Unregister) :
    (hooks.unregister u).counter = hooks.counter ∧ (hooks.unregister u).issued = hooks.issued := by
  unfold Hooks.unregister
  split
  · exact ⟨rfl, rfl⟩
  · exact ⟨rfl, rfl⟩

omit [OfNat P 10] in
/-- Taking back a registration of a list takes back no other. -/
theorem mem_eraseP_order {list : List (Registration V E P)} {n : Nat}
    (h : list.Pairwise fun a b => a.order < b.order) :
    r ∈ list.eraseP (fun r => r.order = n) ↔ r ∈ list ∧ r.order ≠ n := by
  induction list with
  | nil => simp
  | cons first list ih =>
    obtain ⟨hfirst, hlist⟩ := List.pairwise_cons.mp h
    by_cases hn : first.order = n
    · rw [List.eraseP_cons, decide_eq_true hn, cond_true, List.mem_cons]
      constructor
      · intro hr
        exact ⟨.inr hr, fun horder => by have := hfirst r hr; omega⟩
      · rintro ⟨rfl | hr, hne⟩
        · exact absurd hn hne
        · exact hr
    · rw [List.eraseP_cons, decide_eq_false hn, cond_false, List.mem_cons, List.mem_cons, ih hlist]
      constructor
      · rintro (rfl | hr)
        · exact ⟨.inl rfl, hn⟩
        · exact ⟨.inr hr.1, hr.2⟩
      · rintro ⟨rfl | hr, hne⟩
        · exact .inl rfl
        · exact .inr ⟨hr, hne⟩

theorem Enrolled.order_lt {hooks : Hooks V E P} (h : Enrolled hooks calls)
    (hr : r ∈ hooks.get kind name) : r.order < hooks.counter := by
  rw [h.counter, ← h.issued]
  exact (List.getElem?_eq_some_iff.mp (h.known kind name r hr)).1

/-- **A registration** is the last of its list. -/
theorem Enrolled.add {hooks : Hooks V E P} (h : Enrolled hooks calls) {kind' : HookKind} {name' : String}
    {handler : V → HookContext → Called V E} {options : Option (HandlerOptions P)} :
    Enrolled (hooks.add kind' name' handler options)
      (calls ++ [.add kind' name' handler options]) := by
  have hissued : (hooks.add kind' name' handler options).issued =
      hooks.issued ++ [⟨kind', name', hooks.counter⟩] := rfl
  have hlength : hooks.issued.length = hooks.counter := h.issued.trans h.counter.symm
  constructor
  case counter =>
    rw [registrations_append, ← h.counter]
    rfl
  case issued =>
    rw [hissued, List.length_append, registrations_append, ← h.issued]
    rfl
  case own =>
    intro n u hu
    rw [hissued, List.getElem?_append] at hu
    split at hu
    · exact h.own n u hu
    · obtain ⟨hlt, rfl⟩ := List.getElem?_eq_some_iff.mp hu
      simp only [List.length_singleton] at hlt
      simp only [List.getElem_singleton]
      omega
  case current =>
    intro kind name r
    rw [Hooks.get_add, current_add, ← h.counter]
    by_cases hsame : kind = kind' ∧ name = name'
    · obtain ⟨rfl, rfl⟩ := hsame
      rw [if_pos ⟨rfl, rfl⟩, List.mem_append, List.mem_singleton, h.current]
      simp only [true_and]
    · rw [if_neg hsame, h.current]
      refine (or_iff_left fun hlast => hsame ⟨hlast.1, hlast.2.1⟩).symm
  case known =>
    intro kind name r hr
    rw [hissued]
    rw [Hooks.get_add] at hr
    -- the functions handed out before are where they were
    have hold {kind : HookKind} {name : String} (hr : r ∈ hooks.get kind name) :
        (hooks.issued ++ [⟨kind', name', hooks.counter⟩])[r.order]? =
          some ⟨kind, name, r.order⟩ := by
      rw [List.getElem?_append_left (hlength.symm ▸ h.order_lt hr)]
      exact h.known kind name r hr
    split at hr
    · rename_i hsame
      obtain ⟨rfl, rfl⟩ := hsame
      rcases List.mem_append.mp hr with hr | hr
      · exact hold hr
      · rw [List.mem_singleton.mp hr]
        show (hooks.issued ++ [_])[hooks.counter]? = _
        rw [← hlength]
        exact List.getElem?_concat_length
    · exact hold hr
  case order =>
    intro kind name
    rw [Hooks.get_add]
    split
    · -- the new one has the counter, which is above them all
      refine List.pairwise_append.mpr ⟨h.order _ _, List.pairwise_singleton _ _, ?_⟩
      intro a ha b hb
      rw [List.mem_singleton.mp hb]
      exact h.order_lt ha
    · exact h.order kind name

/-- **What is taken back** is one registration. -/
theorem Enrolled.unregister {hooks : Hooks V E P} (h : Enrolled hooks calls) (n : Nat) :
    Enrolled (hooks.step (.unregister n)) (calls ++ [.unregister n]) := by
  have hcount : registrations (calls ++ [.unregister n]) = registrations calls :=
    registrations_append calls [.unregister n]
  have hknown {kind : HookKind} {name : String} {r : Registration V E P}
      (hr : r ∈ hooks.get kind name) (hn : r.order = n) :
      hooks.issued[n]? = some ⟨kind, name, n⟩ := hn ▸ h.known kind name r hr
  cases hu : hooks.issued[n]? with
  | none =>
    -- no registration has handed this function out
    have hstep : hooks.step (.unregister n) = hooks := by rw [Hooks.step, hu]
    rw [hstep]
    refine ⟨h.counter.trans hcount.symm, h.issued.trans hcount.symm, h.own, ?_, h.known, h.order⟩
    intro kind name r
    rw [current_unregister, ← h.current]
    refine (and_iff_left_of_imp fun hr hn => ?_).symm
    cases hu.symm.trans (hknown hr hn)
  | some u =>
    have hown : u.order = n := h.own n u hu
    have hsub (kind : HookKind) (name : String) :
        ((hooks.unregister u).get kind name).Sublist (hooks.get kind name) := by
      rw [Hooks.get_unregister]
      split
      · rename_i hsame
        rw [hsame.1, hsame.2]
        exact List.eraseP_sublist
      · exact List.Sublist.refl _
    have hstep : hooks.step (.unregister n) = hooks.unregister u := by rw [Hooks.step, hu]
    obtain ⟨hcounter, hissued⟩ := hooks.unregister_rest u
    rw [hstep]
    constructor
    case counter => exact hcounter.trans (h.counter.trans hcount.symm)
    case issued => rw [hissued, h.issued, hcount]
    case own => rw [hissued]; exact h.own
    case current =>
      intro kind name r
      rw [current_unregister, ← h.current, Hooks.get_unregister]
      split
      · rename_i hsame
        rw [mem_eraseP_order (h.order _ _), hsame.1, hsame.2, hown]
      · -- the registration `n` is in another list
        rename_i hother
        refine (and_iff_left_of_imp fun hr hn => hother ?_).symm
        cases hu.symm.trans (hknown hr hn)
        exact ⟨rfl, rfl⟩
    case known =>
      intro kind name r hr
      rw [hissued]
      exact h.known kind name r ((hsub kind name).subset hr)
    case order =>
      intro kind name
      exact (h.order kind name).sublist (hsub kind name)

/-- **After any calls** the lists hold what is registered. -/
theorem enrolled_after (calls : List (HookCall V E P)) : Enrolled (Hooks.after calls) calls := by
  induction calls using List.reverseRecOn with
  | nil => exact Enrolled.empty
  | append_singleton calls call ih =>
    have hafter : Hooks.after (calls ++ [call]) = (Hooks.after calls).step call := by
      rw [Hooks.after, List.foldl_append]
      rfl
    rw [hafter]
    cases call with
    | add kind name handler options => exact ih.add
    | unregister n => exact ih.unregister n

end Registered

/-! ## Their order -/

section Order
variable [LinearOrder P] {rs : List (Registration V E P)} {a b c r : Registration V E P}

theorem Registration.le_trans (hab : a.le b = true) (hbc : b.le c = true) : a.le c = true := by
  rw [Registration.le, decide_eq_true_eq] at *
  rcases hab with hab | ⟨hab, hab'⟩
  · rcases hbc with hbc | ⟨hbc, -⟩
    · exact .inl (hab.trans hbc)
    · exact .inl (hbc ▸ hab)
  · rcases hbc with hbc | ⟨hbc, hbc'⟩
    · exact .inl (hab ▸ hbc)
    · exact .inr ⟨hab.trans hbc, hab'.trans hbc'⟩

theorem Registration.le_total (a b : Registration V E P) : (a.le b || b.le a) = true := by
  rw [Bool.or_eq_true, Registration.le, Registration.le, decide_eq_true_eq, decide_eq_true_eq]
  rcases lt_trichotomy a.priority b.priority with hlt | heq | hgt
  · exact .inl (.inl hlt)
  · exact (Nat.le_total a.order b.order).imp (fun hle => .inr ⟨heq, hle⟩)
      fun hle => .inr ⟨heq.symm, hle⟩
  · exact .inr (.inl hgt)

theorem mem_byPriority : r ∈ byPriority rs ↔ r ∈ rs := List.mem_mergeSort

/-- **Priority first, registration second**, and nothing else decides. -/
theorem byPriority_sorted (h : rs.Pairwise fun a b => a.order < b.order) :
    (byPriority rs).Pairwise Registration.Before := by
  have hdistinct : (byPriority rs).Pairwise fun a b => a.order ≠ b.order :=
    (List.mergeSort_perm rs _).symm.pairwise (h.imp fun hlt => Nat.ne_of_lt hlt) fun hne => hne.symm
  have hsorted : (byPriority rs).Pairwise fun a b => a.le b = true := by
    refine List.pairwise_mergeSort ?_ ?_ rs
    · exact fun _ _ _ => Registration.le_trans
    · exact Registration.le_total
  refine (hsorted.and hdistinct).imp ?_
  rintro a b ⟨hle, hne⟩
  rcases of_decide_eq_true hle with hlt | ⟨heq, hle⟩
  · exact .inl hlt
  · exact .inr ⟨heq, Nat.lt_of_le_of_ne hle hne⟩

end Order
end Registry
end PressLabz
