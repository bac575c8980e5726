import PressLabz.VersionHistory

/-! # The order of the locks

Each writer takes its rows in an order of its own: a save its document and then
the ancestors of a new parent, upward; a creation the group and then the
ancestors; a deletion the group, the document and then the children, as the
database comes to them; the scheduler what is due, by the moment it is due.  Where
the calls that are under way at once agree on an order of the rows they have in
common, nobody waits in a circle (`no_lock_cycle`).  No order does once two moves
cross (`moves_wait_in_circle`).
-/
namespace PressLabz
open RowLocks

section Locks
variable {I : Type}

/-- The rows a call under way would have locked at some moment since it began. -/
def lockRows (m : ContentMachine I) (past : List (ContentMachine I)) (i : I) : Set RowKey :=
  {k | ∃ r, m.running i = some r ∧ ∃ m' ∈ since i (m :: past), k ∈ lockOrder m'.db r.call}

/-- The calls under way lock the rows that two of them have in common in one order of
the rows, each at every moment since it began. -/
def LocksTogether (m : ContentMachine I) (past : List (ContentMachine I)) : Prop :=
  ∃ before : RowKey → RowKey → Prop, IsStrictOrder RowKey before ∧
    ∀ i r, m.running i = some r → ∀ m' ∈ since i (m :: past),
      (lockOrder m'.db r.call).Pairwise fun a b =>
        Shared (lockRows m past) i a → Shared (lockRows m past) i b → a = b ∨ before a b

/-- **Nobody waits in a circle** in a state of a run whose calls under way lock together. -/
theorem no_lock_cycle [DecidableEq I] {«media» : List MediaRow} {m : ContentMachine I}
    {past : List (ContentMachine I)}
    (h : Trace engine program (.start (Database.empty «media»)) (m :: past))
    (hlocks : LocksTogether m past) (i : I) : ¬ Relation.TransGen m.WaitsFor i i := by
  obtain ⟨before, hstrict, horder⟩ := hlocks
  -- Every call is on its course in the order of its own rows.
  have hcourse : ∀ i, OnCourse ((contentsDiscipline AnyOrder).ordered
      (contentsDiscipline (InOrder (lockRows m past) before i)).side
      (InOrder (lockRows m past) before i)) engine m i := by
    intro i
    refine ((verified AnyOrder).onCourse (fun m => sides_anyOrder m)
      (verified (InOrder (lockRows m past) before i)) (start_sound AnyOrder (empty_inv «media»))
      (fun _ => rfl) h m rfl).2 i fun r hr m' hm' => ?_
    refine (horder i r hr m' hm').imp_of_mem fun {a b} ha hb hab => ?_
    by_cases heq : a = b
    · exact .inl heq
    · exact .inr ⟨⟨r, hr, m', hm', ha⟩, ⟨r, hr, m', hm', hb⟩, fun hsa hsb =>
        (hab hsa hsb).resolve_left heq⟩
  exact no_cycle hcourse i

end Locks

/-! ### Two moves under one page -/

/-- Later documents before earlier ones. -/
def laterFirst : RowKey → RowKey → Prop
  | .doc a, .doc b => b < a
  | _, _ => False

instance : DecidableRel laterFirst
  | .doc a, .doc b => inferInstanceAs (Decidable (b < a))
  | .doc _, .group _ | .group _, .doc _ | .group _, .group _ => inferInstanceAs (Decidable False)

instance : IsStrictOrder RowKey laterFirst where
  irrefl
    | .doc a => Nat.lt_irrefl a
    | .group _ => not_false
  trans
    | .doc _, .doc _, .doc _, hab, hbc => Nat.lt_trans hbc hab

/-- Pages 3 and 4 are placed under page 2, which is under page 1, each in a save of its
own; the second has to wait for page 2. -/
def movesAtOnce : List (Action Call (Fin 4)) :=
  wholeCall 0 (createPage (emptyPage "about" none) 1 none) 4 ++
    wholeCall 0 (createPage (emptyPage "team" (some 1)) 2 none) 5 ++
    wholeCall 0 (createPage (emptyPage "a" none) 3 none) 4 ++
    wholeCall 0 (createPage (emptyPage "b" none) 4 none) 4 ++
    [.begin_ 2 (savePage 3 { parentId := .value (Uuid.text 2) } (some 1) 500),
      .begin_ 3 (savePage 4 { parentId := .value (Uuid.text 2) } (some 1) 501),
      .advance 2, .advance 3, .advance 2]

theorem no_lock_cycle_moves :
    ∃ (m : ContentMachine (Fin 4)) (past : List (ContentMachine (Fin 4))),
    Trace engine program (.start (Database.empty [])) (m :: past) ∧ m.WaitsFor 3 2 ∧
    ∀ i, ¬ Relation.TransGen m.WaitsFor i i := by
  have heval : ((Machine.start (Database.empty []) : ContentMachine (Fin 4)).traceFrom engine
      program [] movesAtOnce).any (fun (m, past) =>
        m.requested 3 = some (.doc 2) && m.holder (.doc 2) = some 2 &&
        (List.finRange 4).all fun i => (m.running i).all fun r => (since i (m :: past)).all fun m' =>
          decide ((lockOrder m'.db r.call).Pairwise fun a b => a = b ∨ laterFirst a b)) = true := by
    decide +kernel
  obtain ⟨m, past, htrace, hcheck⟩ := Trace.of_eval .start heval
  simp only [Bool.and_eq_true, decide_eq_true_eq, List.all_eq_true, List.mem_finRange,
    true_imp_iff, Option.all_eq_true] at hcheck
  obtain ⟨⟨hwants, hheld⟩, hlocks⟩ := hcheck
  exact ⟨m, past, htrace, Machine.waitsFor_of_requested (by decide) hwants hheld,
    no_lock_cycle htrace ⟨laterFirst, inferInstance, fun i r hr m' hm' =>
      (hlocks i r hr m' hm').imp fun hab _ _ => hab⟩⟩

/-! ### Two moves that cross -/

/-- Page 1 is placed under page 2 and page 2 under page 1, each in a save of its
own. -/
def crossedMoves : List (Action Call (Fin 4)) :=
  wholeCall 0 (createPage (emptyPage "a" none) 1 none) 4 ++
    wholeCall 1 (createPage (emptyPage "b" none) 2 none) 4 ++
    [.begin_ 2 (savePage 1 { parentId := .value (Uuid.text 2) } (some 1) 500),
      .begin_ 3 (savePage 2 { parentId := .value (Uuid.text 1) } (some 1) 501),
      .advance 2, .advance 3]

/-- **Two moves wait for each other**: each holds the document it moves, and wants
the other one next.  Neither is refused with `parent-cycle`; one of them has to be
rolled back before the other can go on. -/
theorem moves_wait_in_circle : ∃ m : ContentMachine (Fin 4),
    (Machine.start (Database.empty [])).steps engine program crossedMoves = some m ∧
    Relation.TransGen m.WaitsFor 2 2 ∧
    ∀ a m', (a.actor = 2 ∨ a.actor = 3) → m.step engine program a = some m' →
      a = .rollback 2 ∨ a = .rollback 3 := by
  have heval : ((Machine.start (Database.empty []) : ContentMachine (Fin 4)).steps engine program
      crossedMoves).any (fun m => m.requested 2 = some (.doc 2) && m.holder (.doc 2) = some 3 &&
        (m.requested 3 = some (.doc 1) && m.holder (.doc 1) = some 2)) = true := by decide +kernel
  obtain ⟨m, hm, -, hcheck⟩ := Run.of_eval heval
  simp only [Bool.and_eq_true, decide_eq_true_eq] at hcheck
  obtain ⟨⟨hwant2, hheld2⟩, hwant3, hheld3⟩ := hcheck
  have h23 : m.WaitsFor 2 3 := Machine.waitsFor_of_requested (by decide) hwant2 hheld2
  have h32 : m.WaitsFor 3 2 := Machine.waitsFor_of_requested (by decide) hwant3 hheld3
  refine ⟨m, hm, .tail (.single h23) h32, fun a m' ha hs => ?_⟩
  rcases ha with ha | ha
  · exact .inl (Machine.step_waiting h23 ha hs)
  · exact .inr (Machine.step_waiting h32 ha hs)

end PressLabz
