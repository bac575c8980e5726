import PressLabz.Hooks

/-! # What the handlers are up to

`apply` and `emit` of `hooks.ts` hand a value to the handlers of a hook and wait for what they
return, each for as long as `withTimeout` allows.  That function races instances of `Promise`
with a timer and passes on everything else, to an `await` that waits for any object with a
`then`.  So the two keep their promises as long as no handler returns such an object that is
never settled, or fulfilled when the time is over (`hooks_keep_iff`).
-/
namespace PressLabz

variable {V E P : Type}

/-! ## Waiting for a handler -/

inductive HookError (E : Type) where
  | thrown (error : E)
  | timedOut (label : String)
  | nothing (label : String)
  deriving DecidableEq

/-- The message of an `Error` that the hooks make themselves. -/
def HookError.message : HookError E → Option String
  | .thrown _ => none
  | .timedOut label => some ("Hook handler \"" ++ label ++ "\" timed out")
  | .nothing label => some ("Filter \"" ++ label ++ "\" returned nothing")

structure HookFailure (E : Type) where
  hook : String
  label : String
  kind : HookKind
  error : HookError E
  deriving DecidableEq

/-- What an `await` comes to. -/
inductive Awaited (V E : Type) where
  | fulfilled (value : V)
  | rejected (error : HookError E)
  | pending

/-- An `await` of an object with a `then`, for as long as it takes. -/
def Settling.awaited : Settling V E → Awaited V E
  | .fulfils value _ => .fulfilled value
  | .rejects error _ => .rejected (.thrown error)
  | .never => .pending

/-- The race of a promise with the timer. -/
def Settling.raced (label : String) : Settling V E → Awaited V E
  | .fulfils value false => .fulfilled value
  | .rejects error false => .rejected (.thrown error)
  | _ => .rejected (.timedOut label)

def withTimeout (work : Work V E) (label : String) : Awaited V E :=
  match work with
  | .value value => .fulfilled value
  | .promise settling => settling.raced label
  | .thenable settling => settling.awaited

/-- `await withTimeout(handler(value, context), timeoutMs, label)`. -/
def Registration.awaited (r : Registration V E P) (value : V) (context : HookContext) :
    Awaited V E :=
  match r.handler value context with
  | .throws error => .rejected (.thrown error)
  | .returns work => withTimeout work r.label

/-! ## Filters -/

/-- What a call of `apply` comes to: the value, unless it waits for ever, and what each handler
that was called has made it report. -/
structure FilterRun (V E : Type) where
  settled : Option V
  reports : List (Option (HookFailure E))

/-- The run in which one more handler was called, before the others. -/
def FilterRun.behind (report : Option (HookFailure E)) (run : FilterRun V E) : FilterRun V E :=
  { run with reports := report :: run.reports }

section Filters
variable (nothing : V → Bool) (name : String) (context : HookContext)

/-- The loop of `apply`; `nothing` is what is `undefined` or `null`. -/
def applyFrom (current : V) : List (Registration V E P) → FilterRun V E
  | [] => ⟨some current, []⟩
  | r :: rs =>
    let failure (error : HookError E) : HookFailure E :=
      { hook := name, label := r.label, kind := .filter, error }
    match r.awaited current context with
    | .pending => ⟨none, []⟩
    | .rejected error => (applyFrom current rs).behind (some (failure error))
    | .fulfilled next =>
      if nothing next then (applyFrom current rs).behind (some (failure (.nothing r.label)))
      else (applyFrom next rs).behind none

/-- `apply`. -/
def Hooks.apply [LinearOrder P] (hooks : Hooks V E P) (value : V) : FilterRun V E :=
  applyFrom nothing name context value (byPriority (hooks.get .filter name))

end Filters

/-! ## Actions -/

/-- What a call of `emit` comes to: the calls of the handlers, each with what it was told, and
what has become of each; `none` is still waiting. -/
structure ActionRun (V E : Type) where
  calls : List (Nat × V × HookContext)
  told : List (Option (Option (HookFailure E)))

/-- `Promise.all` settles when all of them have. -/
def ActionRun.settled (run : ActionRun V E) : Bool := run.told.all Option.isSome

/-- The reports of the errors of the handlers that were called. -/
def ActionRun.reports (run : ActionRun V E) : List (Option (HookFailure E)) :=
  run.told.map Option.join

/-- One of the functions that `emit` runs at once. -/
def tell (name : String) (context : HookContext) (payload : V) (r : Registration V E P) :
    Option (Option (HookFailure E)) :=
  match r.awaited payload context with
  | .pending => none
  | .rejected error => some (some { hook := name, label := r.label, kind := .action, error })
  | .fulfilled _ => some none

/-- `emit`. -/
def Hooks.emit [LinearOrder P] (hooks : Hooks V E P) (name : String) (context : HookContext)
    (payload : V) : ActionRun V E :=
  let registrations := byPriority (hooks.get .action name)
  { calls := registrations.map fun r => (r.order, payload, context)
    told := registrations.map (tell name context payload) }

/-! ## What they promise -/

/-- How long a promise may take. -/
def Settling.inTime : Settling V E → Option V
  | .fulfils value false => some value
  | _ => none

/-- What a handler has to say, in time. -/
def Called.answer : Called V E → Option V
  | .throws _ => none
  | .returns (.value value) => some value
  | .returns (.promise settling) | .returns (.thenable settling) => settling.inTime

section Promises
variable (nothing : V → Bool) (context : HookContext)

/-- A filter's result, if it has one. -/
def Registration.result (r : Registration V E P) (current : V) : Option V :=
  (r.handler current context).answer.filter fun next => !nothing next

/-- The value after a filter: its result, or the one it was given. -/
def Registration.next (current : V) (r : Registration V E P) : V :=
  (r.result nothing context current).getD current

/-- For each filter in turn, whether it fails. -/
def failing (current : V) : List (Registration V E P) → List Bool
  | [] => []
  | r :: rs =>
    (r.result nothing context current).isNone :: failing (r.next nothing context current) rs

/-- The promise of `apply`: the left fold, and a report for each filter that fails. -/
def FilterRun.Kept (run : FilterRun V E) (value : V) (chain : List (Registration V E P)) : Prop :=
  run.settled = some (chain.foldl (Registration.next nothing context) value) ∧
    run.reports.map Option.isSome = failing nothing context value chain

/-- The promise of `emit`: each handler is told once, and reported when it fails. -/
def ActionRun.Kept (run : ActionRun V E) (payload : V) (chain : List (Registration V E P)) : Prop :=
  run.settled = true ∧ run.calls = chain.map (fun r => (r.order, payload, context)) ∧
    run.reports.map Option.isSome =
      chain.map fun r => (r.handler payload context).answer.isNone

/-- Something with a `then` that is no promise and that no timer ends: it is never settled, or
fulfilled when the time is over, with a value that counts. -/
def Called.Stray (counts : V → Prop) : Called V E → Prop
  | .returns (.thenable .never) => True
  | .returns (.thenable (.fulfils value true)) => counts value
  | _ => False

/-- No filter of the chain strays, given what those before it make of the value. -/
def NoneStrays (current : V) : List (Registration V E P) → Prop
  | [] => True
  | r :: rs =>
    ¬ (r.handler current context).Stray (fun next => nothing next = false) ∧
      NoneStrays (r.next nothing context current) rs

end Promises
/-! ## One handler -/

section Handler
variable {nothing : V → Bool} {name : String} {context : HookContext} {value : V}
  {r : Registration V E P} {rs : List (Registration V E P)}

/-- What `apply` makes of a filter: `none` waits for ever, and else there is a result or not. -/
def Awaited.taken (nothing : V → Bool) : Awaited V E → Option (Option V)
  | .pending => none
  | .rejected _ => some none
  | .fulfilled next => some (if nothing next then none else some next)

theorem applyFrom_pending (h : (r.awaited value context).taken nothing = none) :
    (applyFrom nothing name context value (r :: rs)).settled = none := by
  rw [applyFrom]
  cases hawaited : r.awaited value context with
  | pending => rfl
  | rejected error =>
    rw [hawaited] at h
    cases h
  | fulfilled next =>
    rw [hawaited] at h
    cases h

theorem applyFrom_failed (h : (r.awaited value context).taken nothing = some none) :
    ∃ failure, applyFrom nothing name context value (r :: rs) =
      (applyFrom nothing name context value rs).behind (some failure) := by
  rw [applyFrom]
  cases hawaited : r.awaited value context with
  | pending =>
    rw [hawaited] at h
    cases h
  | rejected error => exact ⟨_, rfl⟩
  | fulfilled next =>
    rw [hawaited, Awaited.taken] at h
    by_cases hnothing : nothing next = true
    · simp only [if_pos hnothing]
      exact ⟨_, rfl⟩
    · rw [if_neg hnothing] at h
      cases h

theorem applyFrom_taken {next : V} (h : (r.awaited value context).taken nothing = some (some next)) :
    applyFrom nothing name context value (r :: rs) =
      (applyFrom nothing name context next rs).behind none := by
  rw [applyFrom]
  cases hawaited : r.awaited value context with
  | pending =>
    rw [hawaited] at h
    cases h
  | rejected error =>
    rw [hawaited] at h
    cases h
  | fulfilled next' =>
    rw [hawaited, Awaited.taken] at h
    by_cases hnothing : nothing next' = true
    · rw [if_pos hnothing] at h
      cases h
    · rw [if_neg hnothing] at h
      cases h
      simp only [if_neg hnothing]

theorem taken_fulfilled (nothing : V → Bool) (next : V) :
    (Awaited.fulfilled next : Awaited V E).taken nothing =
      some ((some next).filter fun next => !nothing next) := by
  rw [Awaited.taken, Option.filter_some]
  by_cases hnothing : nothing next = true
  · simp [hnothing]
  · simp [hnothing]

/-- **A filter that does not stray** is taken at its word. -/
theorem taken_of_not_stray
    (h : ¬ (r.handler value context).Stray (fun next => nothing next = false)) :
    (r.awaited value context).taken nothing = some (r.result nothing context value) := by
  unfold Registration.awaited Registration.result
  cases hcalled : r.handler value context with
  | throws error => rfl
  | returns work =>
    rw [hcalled] at h
    cases work with
    | value next => exact taken_fulfilled nothing next
    | promise settling =>
      cases settling with
      | fulfils next late =>
        cases late with
        | false => exact taken_fulfilled nothing next
        | true => rfl
      | rejects error late =>
        cases late with
        | false => rfl
        | true => rfl
      | never => rfl
    | thenable settling =>
      cases settling with
      | fulfils next late =>
        cases late with
        | false => exact taken_fulfilled nothing next
        | true =>
          -- it comes too late, but says nothing
          have hnothing : nothing next = true := by simpa [Called.Stray] using h
          show (Awaited.fulfilled next : Awaited V E).taken nothing = some none
          rw [Awaited.taken, if_pos hnothing]
      | rejects error late => rfl
      | never => exact absurd trivial h

/-- What strays is an object with a `then` that is never settled, or fulfilled too late. -/
theorem stray_cases {counts : V → Prop} {called : Called V E} (h : called.Stray counts) :
    called = .returns (.thenable .never) ∨
      ∃ next, called = .returns (.thenable (.fulfils next true)) ∧ counts next := by
  unfold Called.Stray at h
  split at h
  · exact .inl rfl
  · exact .inr ⟨_, rfl, h⟩
  · exact h.elim

/-- A handler that strays is waited for, or has its result taken too late. -/
theorem taken_of_stray (h : (r.handler value context).Stray (fun next => nothing next = false)) :
    r.result nothing context value = none ∧
      ((r.awaited value context).taken nothing = none ∨
        ∃ next, (r.awaited value context).taken nothing = some (some next)) := by
  unfold Registration.awaited Registration.result
  rcases stray_cases h with hcalled | ⟨next, hcalled, hcounts⟩
  · rw [hcalled]
    exact ⟨rfl, .inl rfl⟩
  · rw [hcalled]
    refine ⟨rfl, .inr ⟨next, ?_⟩⟩
    show (Awaited.fulfilled next : Awaited V E).taken nothing = some (some next)
    rw [Awaited.taken, if_neg (by rw [hcounts]; exact Bool.false_ne_true)]

/-- **An action that does not stray** is told once, and reported when it fails. -/
theorem tell_of_not_stray (h : ¬ (r.handler value context).Stray (fun _ => True)) :
    ∃ report, tell name context value r = some report ∧
      report.isSome = (r.handler value context).answer.isNone := by
  unfold tell Registration.awaited
  cases hcalled : r.handler value context with
  | throws error => exact ⟨_, rfl, rfl⟩
  | returns work =>
    rw [hcalled] at h
    cases work with
    | value next => exact ⟨_, rfl, rfl⟩
    | promise settling =>
      cases settling with
      | fulfils next late =>
        cases late with
        | false => exact ⟨_, rfl, rfl⟩
        | true => exact ⟨_, rfl, rfl⟩
      | rejects error late =>
        cases late with
        | false => exact ⟨_, rfl, rfl⟩
        | true => exact ⟨_, rfl, rfl⟩
      | never => exact ⟨_, rfl, rfl⟩
    | thenable settling =>
      cases settling with
      | fulfils next late =>
        cases late with
        | false => exact ⟨_, rfl, rfl⟩
        | true => exact absurd trivial h
      | rejects error late => exact ⟨_, rfl, rfl⟩
      | never => exact absurd trivial h

theorem tell_of_stray (h : (r.handler value context).Stray (fun _ => True)) :
    (r.handler value context).answer.isNone = true ∧
      (tell name context value r = none ∨ tell name context value r = some none) := by
  unfold tell Registration.awaited
  rcases stray_cases h with hcalled | ⟨next, hcalled, -⟩
  · rw [hcalled]
    exact ⟨rfl, .inl rfl⟩
  · rw [hcalled]
    exact ⟨rfl, .inr rfl⟩

end Handler

/-! ## All of them -/

section Chains
variable {nothing : V → Bool} {name : String} {context : HookContext}

theorem FilterRun.kept_behind {run : FilterRun V E} {report : Option (HookFailure E)} {value : V}
    {r : Registration V E P} {rs : List (Registration V E P)} :
    (run.behind report).Kept nothing context value (r :: rs) ↔
      report.isSome = (r.result nothing context value).isNone ∧
        run.Kept nothing context (r.next nothing context value) rs := by
  rw [FilterRun.Kept, FilterRun.Kept, FilterRun.behind, List.map_cons, failing, List.cons.injEq,
    List.foldl_cons]
  exact and_left_comm

/-- **The loop of `apply`** does what it promises as long as no filter strays. -/
theorem applyFrom_kept_iff (value : V) (chain : List (Registration V E P)) :
    (applyFrom nothing name context value chain).Kept nothing context value chain ↔
      NoneStrays nothing context value chain := by
  induction chain generalizing value with
  | nil => exact iff_of_true ⟨rfl, rfl⟩ trivial
  | cons r rs ih =>
    rw [NoneStrays]
    by_cases hstray : (r.handler value context).Stray (fun next => nothing next = false)
    · refine iff_of_false (fun hkept => ?_) fun hsteady => hsteady.1 hstray
      obtain ⟨hresult, hpending | ⟨next, htaken⟩⟩ := taken_of_stray hstray
      · rw [FilterRun.Kept, applyFrom_pending hpending] at hkept
        cases hkept.1
      · rw [applyFrom_taken htaken, FilterRun.kept_behind, hresult] at hkept
        cases hkept.1
    · rw [and_iff_right hstray]
      have htaken := taken_of_not_stray hstray
      cases hresult : r.result nothing context value with
      | none =>
        rw [hresult] at htaken
        obtain ⟨failure, hfailed⟩ : ∃ failure, applyFrom nothing name context value (r :: rs) =
            (applyFrom nothing name context value rs).behind (some failure) :=
          applyFrom_failed htaken
        have hnext : r.next nothing context value = value := by
          rw [Registration.next, hresult, Option.getD_none]
        rw [hfailed, FilterRun.kept_behind, hresult, hnext, ih]
        exact and_iff_right rfl
      | some next =>
        rw [hresult] at htaken
        have hnext : r.next nothing context value = next := by
          rw [Registration.next, hresult, Option.getD_some]
        rw [applyFrom_taken htaken, FilterRun.kept_behind, hresult, hnext, ih]
        exact and_iff_right rfl

theorem tell_kept_iff {payload : V} {r : Registration V E P} :
    (tell name context payload r).isSome = true ∧
        (tell name context payload r).join.isSome = (r.handler payload context).answer.isNone ↔
      ¬ (r.handler payload context).Stray (fun _ => True) := by
  by_cases hstray : (r.handler payload context).Stray (fun _ => True)
  · refine iff_of_false (fun hkept => ?_) (not_not_intro hstray)
    obtain ⟨hanswer, htell | htell⟩ : _ ∧ (tell name context payload r = none ∨ _) :=
      tell_of_stray hstray
    · rw [htell] at hkept
      cases hkept.1
    · rw [htell, hanswer] at hkept
      cases hkept.2
  · obtain ⟨report, htell, hreport⟩ : ∃ report, tell name context payload r = some report ∧ _ :=
      tell_of_not_stray hstray
    rw [htell]
    exact iff_of_true ⟨rfl, hreport⟩ hstray

/-- **What `emit` runs at once** does what it promises as long as no action strays. -/
theorem told_kept_iff (payload : V) (chain : List (Registration V E P)) :
    (ActionRun.mk (chain.map fun r => (r.order, payload, context))
        (chain.map (tell name context payload))).Kept context payload chain ↔
      ∀ r ∈ chain, ¬ (r.handler payload context).Stray (fun _ => True) := by
  rw [ActionRun.Kept, ActionRun.settled, ActionRun.reports, and_iff_right rfl, List.all_eq_true,
    List.forall_mem_map, List.map_map, List.map_map, List.map_inj_left, ← forall₂_and]
  exact forall₂_congr fun r _ => tell_kept_iff

end Chains

/-- **When the hooks keep their promises**: after any registrations, `apply` and `emit` take the
handlers that are registered, by priority and registration, and do with them what they promise
exactly if none of them strays. -/
theorem hooks_keep_iff [LinearOrder P] [OfNat P 10] (nothing : V → Bool)
    (calls : List (HookCall V E P)) (name : String) (context : HookContext) (value payload : V) :
    let hooks := Hooks.after calls
    let filters := byPriority (hooks.get .filter name)
    let actions := byPriority (hooks.get .action name)
    (filters.Pairwise Registration.Before ∧ ∀ r, r ∈ filters ↔ Current calls .filter name r) ∧
    (actions.Pairwise Registration.Before ∧ ∀ r, r ∈ actions ↔ Current calls .action name r) ∧
    ((hooks.apply nothing name context value).Kept nothing context value filters ↔
      NoneStrays nothing context value filters) ∧
    ((hooks.emit name context payload).Kept context payload actions ↔
      ∀ r ∈ actions, ¬ (r.handler payload context).Stray (fun _ => True)) := by
  intro hooks filters actions
  have henrolled := enrolled_after calls
  refine ⟨⟨byPriority_sorted (henrolled.order _ _), fun r => ?_⟩,
    ⟨byPriority_sorted (henrolled.order _ _), fun r => ?_⟩, ?_, ?_⟩
  · exact mem_byPriority.trans (henrolled.current .filter name r)
  · exact mem_byPriority.trans (henrolled.current .action name r)
  · exact applyFrom_kept_iff value filters
  · exact told_kept_iff payload actions

/-- A filter that returns an object with a `then`, and no promise, hangs the request; one that
takes its time has its result taken all the same, and nothing is reported. -/
theorem thenables_are_not_timed :
    let hang : HookCall String String Int :=
      .add .filter "content:body" (fun _ _ => .returns (.thenable .never)) none
    let late : HookCall String String Int :=
      .add .filter "content:body" (fun _ _ => .returns (.thenable (.fulfils "late" true))) none
    let tell : HookCall String String Int :=
      .add .action "content:saved" (fun _ _ => .returns (.thenable .never)) none
    ((Hooks.after [hang]).apply (fun _ => false) "content:body" {} "kept").settled = none ∧
    ((Hooks.after [late]).apply (fun _ => false) "content:body" {} "kept").settled =
      some "late" ∧
    (byPriority ((Hooks.after [late]).get .filter "content:body")).foldl
      (Registration.next (fun _ => false) {}) "kept" = "kept" ∧
    ((Hooks.after [tell]).emit "content:saved" {} "1").settled = false := by
  decide +kernel
end PressLabz
