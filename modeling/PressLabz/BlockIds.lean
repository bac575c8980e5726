import PressLabz.EditorSave

/-! # Which block keeps a repeated id

`withUniqueIds` over a `newId` that may answer anything, as long as it has an answer outside
any finite set.  The repair then ends, changes nothing but ids, and leaves them distinct.
But an answer is only compared with the ids seen so far: one that is the id of a block
further on is handed out, and that block loses it.  So the first block of every id keeps it
exactly when no answer names a block ahead of the one it is asked for
(`first_keeps_iff`).
-/
namespace PressLabz

/-- What `newId` answers, from the `k`-th time on. -/
def answersFrom (newId : Nat → UuidText) (k n : Nat) : List UuidText :=
  (List.range' k n).map newId

/-- However many ids are taken, `newId` has another one. -/
def EventuallyFresh (newId : Nat → UuidText) : Prop := ∀ ids : List UuidText, ∃ n, newId n ∉ ids

/-- The repair of what is left, from the `k`-th answer on, ends with these blocks. -/
def EndsWith (newId : Nat → UuidText) (seen : List UuidText) (k : Nat)
    (blocks repaired : Blocks) : Prop :=
  ∃ enough, ∀ n, enough ≤ n → withUniqueIds seen (answersFrom newId k n) blocks = some repaired

section Asking
variable {newId : Nat → UuidText} {seen : List UuidText} {k n m : Nat}

theorem answersFrom_succ : answersFrom newId k (n + 1) = newId k :: answersFrom newId (k + 1) n := by
  rw [answersFrom, List.range'_succ, List.map_cons]
  rfl

/-- The `while` asks until an answer was not seen. -/
theorem nextUnseen_answers (hkm : k ≤ m) (hseen : ∀ j, k ≤ j → j < m → newId j ∈ seen)
    (hnew : newId m ∉ seen) (hn : m < k + n) :
    nextUnseen seen (answersFrom newId k n) =
      some (newId m, answersFrom newId (m + 1) (k + n - (m + 1))) := by
  induction n generalizing k with
  | zero => omega
  | succ n ih =>
    rw [answersFrom_succ, nextUnseen]
    by_cases heq : k = m
    · subst heq
      rw [if_neg hnew]
      exact congrArg (fun n => some (newId k, answersFrom newId (k + 1) n)) (by omega)
    · rw [if_pos (hseen k (Nat.le_refl k) (by omega)),
        ih (by omega) (fun j hj hjm => hseen j (by omega) hjm) (by omega)]
      exact congrArg (fun n => some (newId m, answersFrom newId (m + 1) n)) (by omega)

/-- An answer of `newId` that was not seen comes, and has a first one. -/
theorem EventuallyFresh.first (h : EventuallyFresh newId) (seen : List UuidText) (k : Nat) :
    ∃ m, k ≤ m ∧ (∀ j, k ≤ j → j < m → newId j ∈ seen) ∧ newId m ∉ seen := by
  obtain ⟨n, hn⟩ := h (seen ++ answersFrom newId 0 k)
  rw [List.mem_append, not_or] at hn
  have hkn : k ≤ n := by
    by_contra hlt
    refine hn.2 (List.mem_map.mpr ⟨n, ?_, rfl⟩)
    rw [List.mem_range'_1]
    omega
  have hex : ∃ m, k ≤ m ∧ newId m ∉ seen := ⟨n, hkn, hn.1⟩
  obtain ⟨hle, hnew⟩ := Nat.find_spec hex
  refine ⟨Nat.find hex, hle, fun j hj hjm => ?_, hnew⟩
  by_contra hno
  exact Nat.find_min hex hjm ⟨hj, hno⟩

end Asking
/-! ## The condition -/

/-- The blocks that are repaired, by position: those whose id stood before. -/
def repeats (past : List UuidText) : List UuidText → List Nat
  | [] => []
  | id :: rest =>
    (if id ∈ past then [0] else []) ++ (repeats (id :: past) rest).map (· + 1)

/-- How many different ids that are none of the document's `newId` has answered before its
`k`-th answer. -/
def strangersBefore (ids : List UuidText) (newId : Nat → UuidText) : Nat → Nat
  | 0 => 0
  | k + 1 => strangersBefore ids newId k +
      if newId k ∉ ids ∧ ∀ j < k, newId j ≠ newId k then 1 else 0

/-- No answer is the id of a block further on than the one it is asked for.  One stranger
goes to each repeated block, so that the number of strangers so far says which block that
is. -/
def NeverAhead (newId : Nat → UuidText) (ids : List UuidText) : Prop :=
  ∀ k i, (repeats [] ids)[strangersBefore ids newId k]? = some i → newId k ∈ ids →
    newId k ∈ ids.take i

/-- The first block of each id that was not there in `past` still has it. -/
def FirstKept (past : List UuidText) (blocks repaired : Blocks) : Prop :=
  ∀ (i : Nat) (id : UuidText), (blocks.map Block.id)[i]? = some id → id ∉ past →
    id ∉ (blocks.map Block.id).take i → (repaired.map Block.id)[i]? = some id

/-- The blocks are those that there were, in their order, apart from the ids. -/
def SameApartFromIds (blocks repaired : Blocks) : Prop :=
  List.Forall₂ (fun block other => other = block.withId other.id) blocks repaired

theorem firstKept_cons {past : List UuidText} {block other : Block} {blocks repaired : Blocks} :
    FirstKept past (block :: blocks) (other :: repaired) ↔
      (block.id ∉ past → other.id = block.id) ∧ FirstKept (block.id :: past) blocks repaired := by
  constructor
  · intro h
    refine ⟨fun hnew => Option.some.inj (h 0 block.id rfl hnew (by simp)), fun i id hid hnew hi => ?_⟩
    rw [List.mem_cons, not_or] at hnew
    refine h (i + 1) id hid hnew.2 ?_
    rw [List.map_cons, List.take_succ_cons, List.mem_cons, not_or]
    exact ⟨hnew.1, hi⟩
  · rintro ⟨hfirst, hrest⟩ i id hid hnew hi
    cases i with
    | zero =>
      obtain rfl : block.id = id := Option.some.inj hid
      exact congrArg some (hfirst hnew)
    | succ i =>
      rw [List.map_cons, List.take_succ_cons, List.mem_cons, not_or] at hi
      exact hrest i id hid (by rw [List.mem_cons, not_or]; exact ⟨hi.1, hnew⟩) hi.2

section Strangers
variable {ids : List UuidText} {newId : Nat → UuidText} {k m : Nat}

theorem strangersBefore_mono (h : k ≤ m) :
    strangersBefore ids newId k ≤ strangersBefore ids newId m := by
  induction m with
  | zero => rw [Nat.le_zero.mp h]
  | succ m ih =>
    rcases Nat.le_or_eq_of_le_succ h with hle | rfl
    · exact Nat.le_trans (ih hle) (Nat.le_add_right _ _)
    · exact Nat.le_refl _

/-- Answers that are of the document, or were given before, add no stranger. -/
theorem strangersBefore_same (hkm : k ≤ m)
    (h : ∀ j, k ≤ j → j < m → newId j ∈ ids ∨ ∃ i < j, newId i = newId j) :
    strangersBefore ids newId m = strangersBefore ids newId k := by
  induction m with
  | zero => rw [Nat.le_zero.mp hkm]
  | succ m ih =>
    rcases Nat.le_or_eq_of_le_succ hkm with hle | rfl
    · rw [strangersBefore, if_neg, Nat.add_zero, ih hle fun j hj hjm => h j hj (by omega)]
      rintro ⟨hno, hnew⟩
      rcases h m hle (Nat.lt_succ_self m) with hmem | ⟨i, hi, heq⟩
      · exact hno hmem
      · exact hnew i hi heq
    · rfl

end Strangers

/-- What the loop has seen after `k` answers: the ids that stood before, and the strangers
it was answered. -/
def SeenAfter (ids past seen : List UuidText) (newId : Nat → UuidText) (k : Nat) : Prop :=
  ∀ x, x ∈ seen ↔ x ∈ past ∨ ∃ j < k, newId j = x ∧ x ∉ ids

/-- `NeverAhead`, for the answers from the `k`-th on and the blocks that are left. -/
def NeverAheadFrom (ids past rest : List UuidText) (newId : Nat → UuidText) (k : Nat) : Prop :=
  ∀ j, k ≤ j → ∀ i, (repeats past rest)[strangersBefore ids newId j -
    strangersBefore ids newId k]? = some i → newId j ∈ ids → newId j ∈ past ∨ newId j ∈ rest.take i

section Repair
variable {ids past seen rest : List UuidText} {newId : Nat → UuidText} {k m : Nat} {id : UuidText}

/-- A block that keeps its id leaves the condition to the others. -/
theorem neverAheadFrom_new (hnew : id ∉ past) : NeverAheadFrom ids past (id :: rest) newId k ↔
    NeverAheadFrom ids (id :: past) rest newId k := by
  have hrepeats : repeats past (id :: rest) = (repeats (id :: past) rest).map (· + 1) := by
    rw [repeats, if_neg hnew, List.nil_append]
  unfold NeverAheadFrom
  rw [hrepeats]
  constructor
  · intro h j hj i hi hmem
    have := h j hj (i + 1) (by rw [List.getElem?_map, hi]; rfl) hmem
    rw [List.take_succ_cons, List.mem_cons] at this
    rw [List.mem_cons]
    tauto
  · intro h j hj i hi hmem
    rw [List.getElem?_map] at hi
    obtain ⟨i', hi', rfl⟩ := Option.map_eq_some_iff.mp hi
    have := h j hj i' hi' hmem
    rw [List.mem_cons] at this
    rw [List.take_succ_cons, List.mem_cons]
    tauto

/-- A block that is given a stranger, at the `m`-th answer, leaves the condition to the others. -/
theorem neverAheadFrom_repeat (hold : id ∈ past) (hkm : k ≤ m)
    (hskipped : ∀ j, k ≤ j → j < m → newId j ∈ ids → newId j ∈ past)
    (hsame : strangersBefore ids newId m = strangersBefore ids newId k)
    (hstranger : newId m ∉ ids) (hnew : ∀ j < m, newId j ≠ newId m) :
    NeverAheadFrom ids past (id :: rest) newId k ↔
      NeverAheadFrom ids (id :: past) rest newId (m + 1) := by
  have hrepeats : repeats past (id :: rest) = 0 :: (repeats (id :: past) rest).map (· + 1) := by
    rw [repeats, if_pos hold, List.singleton_append]
  have hnext : strangersBefore ids newId (m + 1) = strangersBefore ids newId k + 1 := by
    rw [strangersBefore, if_pos ⟨hstranger, hnew⟩, hsame]
  -- the next repeat is the one of the stranger after this
  have hindex : ∀ j, m + 1 ≤ j → (0 :: (repeats (id :: past) rest).map (· + 1))[
      strangersBefore ids newId j - strangersBefore ids newId k]? =
        ((repeats (id :: past) rest)[strangersBefore ids newId j -
          (strangersBefore ids newId k + 1)]?).map (· + 1) := by
    intro j hj
    have hmono : strangersBefore ids newId (m + 1) ≤ strangersBefore ids newId j :=
      strangersBefore_mono hj
    rw [hnext] at hmono
    obtain ⟨d, hd⟩ := Nat.exists_eq_add_of_le hmono
    rw [show strangersBefore ids newId j - strangersBefore ids newId k = d + 1 by omega,
      show strangersBefore ids newId j - (strangersBefore ids newId k + 1) = d by omega,
      List.getElem?_cons_succ, List.getElem?_map]
  unfold NeverAheadFrom
  rw [hrepeats, hnext]
  constructor
  · intro h j hj i hi hmem
    have := h j (by omega) (i + 1) (by rw [hindex j hj, hi]; rfl) hmem
    rw [List.take_succ_cons, List.mem_cons] at this
    rw [List.mem_cons]
    tauto
  · intro h j hj i hi hmem
    by_cases hjm : j < m + 1
    · -- no answer up to the stranger is a block's ahead
      rcases Nat.lt_succ_iff_lt_or_eq.mp hjm with hlt | rfl
      · exact .inl (hskipped j hj hlt hmem)
      · exact absurd hmem hstranger
    · rw [hindex j (Nat.le_of_not_lt hjm)] at hi
      obtain ⟨i', hi', rfl⟩ := Option.map_eq_some_iff.mp hi
      have := h j (Nat.le_of_not_lt hjm) i' hi' hmem
      rw [List.mem_cons] at this
      rw [List.take_succ_cons, List.mem_cons]
      tauto

theorem EndsWith.unique {blocks repaired other : Blocks} (h : EndsWith newId seen k blocks repaired)
    (h' : EndsWith newId seen k blocks other) : repaired = other := by
  obtain ⟨n, hn⟩ := h
  obtain ⟨n', hn'⟩ := h'
  exact Option.some.inj ((hn _ (Nat.le_max_left n n')).symm.trans (hn' _ (Nat.le_max_right n n')))

theorem EndsWith.keep {block : Block} {blocks repaired : Blocks} (hnew : block.id ∉ seen)
    (h : EndsWith newId (block.id :: seen) k blocks repaired) :
    EndsWith newId seen k (block :: blocks) (block :: repaired) := by
  obtain ⟨enough, h⟩ := h
  refine ⟨enough, fun n hn => ?_⟩
  rw [withUniqueIds, if_pos hnew, h n hn]
  rfl

theorem EndsWith.give {block : Block} {blocks repaired : Blocks} (hold : block.id ∈ seen)
    (hkm : k ≤ m) (hskipped : ∀ j, k ≤ j → j < m → newId j ∈ seen) (hnew : newId m ∉ seen)
    (h : EndsWith newId (newId m :: seen) (m + 1) blocks repaired) :
    EndsWith newId seen k (block :: blocks) (block.withId (newId m) :: repaired) := by
  obtain ⟨enough, h⟩ := h
  refine ⟨enough + (m + 1), fun n hn => ?_⟩
  rw [withUniqueIds, if_neg (not_not.mpr hold),
    nextUnseen_answers hkm hskipped hnew (by omega : m < k + n), Option.bind_some]
  exact congrArg (Option.map _) (h _ (by omega))

theorem Block.withId_self (block : Block) : block = block.withId block.id := by
  cases block <;> rfl

/-- **The repair ends**, and changes ids only. -/
theorem repair_ends (hfresh : EventuallyFresh newId) (seen : List UuidText) (k : Nat)
    (blocks : Blocks) :
    ∃ repaired, EndsWith newId seen k blocks repaired ∧ SameApartFromIds blocks repaired := by
  induction blocks generalizing seen k with
  | nil => exact ⟨[], ⟨0, fun _ _ => rfl⟩, .nil⟩
  | cons block blocks ih =>
    by_cases hold : block.id ∈ seen
    · obtain ⟨m, hkm, hskipped, hnew⟩ := hfresh.first seen k
      obtain ⟨repaired, hends, hapart⟩ := ih (newId m :: seen) (m + 1)
      exact ⟨_, .give hold hkm hskipped hnew hends, .cons (by rw [Block.withId_id]) hapart⟩
    · obtain ⟨repaired, hends, hapart⟩ := ih (block.id :: seen) k
      exact ⟨_, .keep hold hends, .cons block.withId_self hapart⟩

/-- An id that is there stands somewhere first. -/
theorem exists_first {x : UuidText} {l : List UuidText} (h : x ∈ l) :
    ∃ i, l[i]? = some x ∧ x ∉ l.take i := by
  induction l with
  | nil => cases h
  | cons y l ih =>
    by_cases heq : x = y
    · exact ⟨0, congrArg some heq.symm, by simp⟩
    · obtain ⟨i, hi, hno⟩ := ih ((List.mem_cons.mp h).resolve_left heq)
      refine ⟨i + 1, hi, ?_⟩
      rw [List.take_succ_cons, List.mem_cons, not_or]
      exact ⟨heq, hno⟩

/-- A block whose id is handed out before its turn loses it. -/
theorem not_firstKept {block : Block} {blocks repaired : Blocks} {x : UuidText}
    (hends : EndsWith newId (x :: seen) k blocks repaired) (hx : x ∈ blocks.map Block.id)
    (hpast : x ∉ block.id :: past) : ¬ FirstKept (block.id :: past) blocks repaired := by
  intro h
  obtain ⟨i, hi, hfirst⟩ := exists_first hx
  obtain ⟨enough, hends⟩ := hends
  have hmem := List.mem_of_getElem? (h i x hi hpast hfirst)
  exact (withUniqueIds_nodup (hends enough (Nat.le_refl enough))).2 x hmem List.mem_cons_self

/-- Once a new id is kept, it has been seen. -/
theorem SeenAfter.keep (h : SeenAfter ids past seen newId k) :
    SeenAfter ids (id :: past) (id :: seen) newId k := by
  intro x
  rw [List.mem_cons, h, List.mem_cons]
  tauto

section Answered
variable (hseen : SeenAfter ids past seen newId k) (hkm : k ≤ m)
  (hskipped : ∀ j, k ≤ j → j < m → newId j ∈ seen)
include hseen

/-- An id among the answers that are skipped is that of a block before. -/
theorem SeenAfter.skipped (hskipped : ∀ j, k ≤ j → j < m → newId j ∈ seen) {j : Nat} (hj : k ≤ j)
    (hjm : j < m) (hmem : newId j ∈ ids) : newId j ∈ past := by
  rcases (hseen _).mp (hskipped j hj hjm) with h | ⟨_, _, _, hno⟩
  · exact h
  · exact absurd hmem hno

include hkm hskipped

/-- No stranger is among the answers that are skipped. -/
theorem SeenAfter.strangers (hids : ∀ x ∈ past, x ∈ ids) :
    strangersBefore ids newId m = strangersBefore ids newId k := by
  refine strangersBefore_same hkm fun j hj hjm => ?_
  rcases (hseen _).mp (hskipped j hj hjm) with h | ⟨i, hi, heq, -⟩
  · exact .inl (hids _ h)
  · exact .inr ⟨i, by omega, heq⟩

omit hkm in
/-- A stranger that was not seen is answered for the first time. -/
theorem SeenAfter.first_answer (hnew : newId m ∉ seen) (hstranger : newId m ∉ ids) :
    ∀ j < m, newId j ≠ newId m := by
  intro j hj heq
  by_cases hjk : j < k
  · exact hnew ((hseen _).mpr (.inr ⟨j, hjk, heq, hstranger⟩))
  · exact hnew (heq ▸ hskipped j (Nat.le_of_not_lt hjk) hj)

/-- Once a stranger is given to a block, it has been seen. -/
theorem SeenAfter.give (hold : id ∈ past) (hstranger : newId m ∉ ids) :
    SeenAfter ids (id :: past) (newId m :: seen) newId (m + 1) := by
  intro x
  rw [List.mem_cons, List.mem_cons]
  constructor
  · rintro (rfl | hx)
    · exact .inr ⟨m, Nat.lt_succ_self m, rfl, hstranger⟩
    · rcases (hseen x).mp hx with h | ⟨j, hj, heq, hno⟩
      · exact .inl (.inr h)
      · exact .inr ⟨j, by omega, heq, hno⟩
  · rintro ((rfl | hx) | ⟨j, hj, rfl, hno⟩)
    · exact .inr ((hseen _).mpr (.inl hold))
    · exact .inr ((hseen x).mpr (.inl hx))
    · rcases Nat.lt_succ_iff_lt_or_eq.mp hj with hlt | rfl
      · by_cases hjk : j < k
        · exact .inr ((hseen _).mpr (.inr ⟨j, hjk, rfl, hno⟩))
        · exact .inr (hskipped j (Nat.le_of_not_lt hjk) hlt)
      · exact .inl rfl

/-- A block that is given the id of a block ahead breaks the condition. -/
theorem SeenAfter.not_neverAhead (hids : ∀ x ∈ past, x ∈ ids) (hold : id ∈ past)
    (hnew : newId m ∉ past) (hstranger : newId m ∈ ids) :
    ¬ NeverAheadFrom ids past (id :: rest) newId k := by
  intro h
  have hzero : (repeats past (id :: rest))[strangersBefore ids newId m -
      strangersBefore ids newId k]? = some 0 := by
    rw [hseen.strangers hkm hskipped hids, Nat.sub_self, repeats, if_pos hold]
    rfl
  rcases h m hkm 0 hzero hstranger with hmem | hmem
  · exact hnew hmem
  · cases hmem

end Answered

/-- **The repair of what is left** keeps the first block of each new id exactly when no
answer names a block ahead. -/
theorem repair_from (hfresh : EventuallyFresh newId) {blocks repaired : Blocks}
    (hids : ∀ x, x ∈ ids ↔ x ∈ past ∨ x ∈ blocks.map Block.id)
    (hseen : SeenAfter ids past seen newId k) (hends : EndsWith newId seen k blocks repaired) :
    FirstKept past blocks repaired ↔ NeverAheadFrom ids past (blocks.map Block.id) newId k := by
  induction blocks generalizing past seen k repaired with
  | nil =>
    refine iff_of_true (fun i id hid => ?_) fun _ _ i hi => ?_
    · simp at hid
    · simp [repeats] at hi
  | cons block blocks ih =>
    have hpast : ∀ x, x ∈ ids ↔ x ∈ block.id :: past ∨ x ∈ blocks.map Block.id := by
      intro x
      rw [hids, List.map_cons, List.mem_cons, List.mem_cons]
      tauto
    by_cases hold : block.id ∈ past
    · -- the block is given the first answer that was not seen
      obtain ⟨m, hkm, hskipped, hnew⟩ := hfresh.first seen k
      obtain ⟨rest, hrest, -⟩ := repair_ends hfresh (newId m :: seen) (m + 1) blocks
      obtain rfl := hends.unique (hrest.give ((hseen _).mpr (.inl hold)) hkm hskipped hnew)
      have hpastIds : ∀ x ∈ past, x ∈ ids := fun x hx => (hids x).mpr (.inl hx)
      have hnotPast : newId m ∉ past := fun h => hnew ((hseen _).mpr (.inl h))
      rw [firstKept_cons, and_iff_right fun hno => absurd hold hno, List.map_cons]
      by_cases hstranger : newId m ∈ ids
      · -- it is the id of a block ahead
        have hahead : newId m ∉ block.id :: past := by
          rw [List.mem_cons, not_or]
          exact ⟨fun heq => hnotPast (heq ▸ hold), hnotPast⟩
        have hthere := ((hpast _).mp hstranger).resolve_left hahead
        exact iff_of_false (not_firstKept hrest hthere hahead)
          (hseen.not_neverAhead hkm hskipped hpastIds hold hnotPast hstranger)
      · rw [neverAheadFrom_repeat hold hkm (fun j hj hjm => hseen.skipped hskipped hj hjm)
          (hseen.strangers hkm hskipped hpastIds) hstranger
          (hseen.first_answer hskipped hnew hstranger)]
        exact ih hpast (hseen.give hkm hskipped hold hstranger) hrest
    · have hunseen : block.id ∉ seen := by
        rw [hseen]
        rintro (h | ⟨_, _, -, hno⟩)
        · exact hold h
        · exact hno ((hids _).mpr (.inr List.mem_cons_self))
      obtain ⟨rest, hrest, -⟩ := repair_ends hfresh (block.id :: seen) k blocks
      obtain rfl := hends.unique (hrest.keep hunseen)
      rw [firstKept_cons, and_iff_right fun _ => rfl, List.map_cons, neverAheadFrom_new hold]
      exact ih hpast hseen.keep hrest

end Repair

/-- What a repair of the ids is to do. -/
structure RepairsIds (blocks repaired : Blocks) : Prop where
  apart : SameApartFromIds blocks repaired
  distinct : (repaired.map Block.id).Nodup
  /-- The first block of every id keeps it. -/
  first : ∀ (i : Nat) (id : UuidText), (blocks.map Block.id)[i]? = some id →
    id ∉ (blocks.map Block.id).take i → (repaired.map Block.id)[i]? = some id

/-- **The first block of every id keeps it** exactly when no answer of `newId` names a block
ahead; everything else is repaired whatever it answers. -/
theorem first_keeps_iff {newId : Nat → UuidText} (hfresh : EventuallyFresh newId)
    (blocks : Blocks) :
    ∃ repaired, EndsWith newId [] 0 blocks repaired ∧ SameApartFromIds blocks repaired ∧
      (repaired.map Block.id).Nodup ∧
      (RepairsIds blocks repaired ↔ NeverAhead newId (blocks.map Block.id)) := by
  obtain ⟨repaired, hends, hapart⟩ := repair_ends hfresh [] 0 blocks
  have hdistinct : (repaired.map Block.id).Nodup := by
    obtain ⟨enough, h⟩ := hends
    exact (withUniqueIds_nodup (h enough (Nat.le_refl enough))).1
  have hiff : FirstKept [] blocks repaired ↔
      NeverAheadFrom (blocks.map Block.id) [] (blocks.map Block.id) newId 0 := by
    refine repair_from hfresh (fun x => by simp) (fun x => ?_) hends
    simp
  refine ⟨repaired, hends, hapart, hdistinct, fun h => ?_, fun h => ⟨hapart, hdistinct, ?_⟩⟩
  · intro k i hi hmem
    have := hiff.mp (fun i id hid _ => h.first i id hid) k (Nat.zero_le k) i hi hmem
    exact this.resolve_left List.not_mem_nil
  · intro i id hid hfirst
    exact hiff.mpr (fun k _ i hi hmem => .inr (h k i hi hmem)) i id hid List.not_mem_nil hfirst

/-- A `newId` that counts from 2. -/
def countedId (n : Nat) : UuidText := Uuid.text (n + 2)

theorem countedId_fresh : EventuallyFresh countedId := by
  intro ids
  have hbound : ∃ bound, ∀ n, bound ≤ n → countedId n ∉ ids := by
    induction ids with
    | nil => exact ⟨0, fun _ _ => List.not_mem_nil⟩
    | cons id ids ih =>
      obtain ⟨bound, h⟩ := ih
      refine ⟨bound + id.uuid, fun n hn hmem => ?_⟩
      rcases List.mem_cons.mp hmem with heq | hmem
      · have huuid : n + 2 = id.uuid := congrArg UuidText.uuid heq
        omega
      · exact h n (by omega) hmem
  obtain ⟨bound, h⟩ := hbound
  exact ⟨bound, h bound (Nat.le_refl bound)⟩

theorem first_keeps_twice : ∃ repaired,
    EndsWith countedId [] 0 [.divider (Uuid.text 1), .divider (Uuid.text 1)] repaired ∧
      RepairsIds [.divider (Uuid.text 1), .divider (Uuid.text 1)] repaired := by
  obtain ⟨repaired, hends, -, -, hiff⟩ := first_keeps_iff countedId_fresh
    [.divider (Uuid.text 1), .divider (Uuid.text 1)]
  refine ⟨repaired, hends, hiff.mpr fun k i _ hmem => ?_⟩
  -- no answer is an id of the document
  have huuid : countedId k = Uuid.text 1 := by simpa [Block.id] using hmem
  have : k + 2 = 1 := congrArg UuidText.uuid huuid
  omega

/-- **The last of three blocks loses its id**: the second one is given it before the loop
has seen it. -/
theorem third_loses_id : EventuallyFresh countedId ∧ ∃ repaired,
    EndsWith countedId [] 0
      [.divider (Uuid.text 1), .divider (Uuid.text 1), .divider (Uuid.text 2)] repaired ∧
    ¬ RepairsIds [.divider (Uuid.text 1), .divider (Uuid.text 1), .divider (Uuid.text 2)]
      repaired := by
  refine ⟨countedId_fresh,
    [.divider (Uuid.text 1), .divider (Uuid.text 2), .divider (Uuid.text 3)],
    ⟨2, fun n hn => ?_⟩, fun h => ?_⟩
  · obtain ⟨n, rfl⟩ := Nat.exists_eq_add_of_le' hn
    rw [answersFrom_succ, answersFrom_succ]
    rfl
  · have := h.first 2 (Uuid.text 2) rfl (by decide)
    revert this
    decide

end PressLabz
