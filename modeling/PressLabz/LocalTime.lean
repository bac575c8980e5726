import Mathlib.Data.Int.LeastGreatest

/-! # Local time

A time zone is its offset at every instant.  A wall clock may be shown more than once,
when the clocks go back, and may not be shown at all, when they go forward; the
platform reads the first kind as the earliest of its instants, and the second kind with
the offset that was in force before the clocks were moved.

`Zone.read_minute_iff` says which instants are found again from the minute their wall
clock shows.  Any offset within bounds is that of a zone (`exists_zone`).
-/
namespace LocalTime

/-- What the clock shows at an instant. -/
def wallClock (offset : Int → Int) (instant : Int) : Int := instant + offset instant

/-- The last instant of the last wall clock before `wall` that is shown. -/
structure LastBefore (offset : Int → Int) (wall j : Int) : Prop where
  before : wallClock offset j < wall
  latest : ∀ k, wallClock offset k < wall → wallClock offset k ≤ wallClock offset j
  last : ∀ k, wallClock offset k = wallClock offset j → k ≤ j

theorem LastBefore.unique {offset : Int → Int} {wall j k : Int} (hj : LastBefore offset wall j)
    (hk : LastBefore offset wall k) : j = k := by
  have hwall : wallClock offset j = wallClock offset k :=
    Int.le_antisymm (hk.latest j hj.before) (hj.latest k hk.before)
  exact Int.le_antisymm (hk.last j hwall) (hj.last k hwall.symm)

/-- The rules of a zone, and how it reads a wall clock. -/
structure Zone where
  offset : Int → Int
  read : Int → Int
  read_shown : ∀ wall i, wallClock offset i = wall →
    wallClock offset (read wall) = wall ∧ read wall ≤ i
  read_skipped : ∀ wall, (∀ i, wallClock offset i ≠ wall) →
    ∃ j, LastBefore offset wall j ∧ read wall = wall - offset j

namespace Zone
variable (z : Zone)

/-- The minute that the clock shows. -/
def minute (instant : Int) : Int :=
  wallClock z.offset instant - wallClock z.offset instant % 60000

/-- The clock shows a whole minute and no earlier instant shows it; or the minute it
shows is skipped, by as much as it is past it. -/
def Names (instant : Int) : Prop :=
  (wallClock z.offset instant % 60000 = 0 ∧
    ∀ j, wallClock z.offset j = wallClock z.offset instant → instant ≤ j) ∨
  ((∀ j, wallClock z.offset j ≠ z.minute instant) ∧
    ∃ j, LastBefore z.offset (z.minute instant) j ∧ instant = z.minute instant - z.offset j)

/-- **The minute of an instant** is read as that instant exactly where it names it. -/
theorem read_minute_iff (instant : Int) : z.read (z.minute instant) = instant ↔ z.Names instant := by
  constructor
  · intro hread
    by_cases hshown : ∃ j, wallClock z.offset j = z.minute instant
    · -- the minute is shown: it is read as the first instant that shows it
      obtain ⟨j, hj⟩ := hshown
      have hwall := (z.read_shown _ j hj).1
      rw [hread] at hwall
      refine .inl ⟨?_, fun k hk => ?_⟩
      · rw [minute] at hwall
        omega
      · have hle := (z.read_shown _ k (hk.trans hwall)).2
        rwa [hread] at hle
    · -- no clock shows it: it is read with the offset before the clocks moved
      have hskipped : ∀ j, wallClock z.offset j ≠ z.minute instant := fun j hj => hshown ⟨j, hj⟩
      obtain ⟨j, hj, hvalue⟩ := z.read_skipped _ hskipped
      exact .inr ⟨hskipped, j, hj, hread.symm.trans hvalue⟩
  · rintro (⟨hwhole, hfirst⟩ | ⟨hskipped, j, hj, hvalue⟩)
    · have hminute : z.minute instant = wallClock z.offset instant := by
        rw [minute, hwhole, Int.sub_zero]
      obtain ⟨hwall, hle⟩ := z.read_shown (z.minute instant) instant hminute.symm
      exact Int.le_antisymm hle (hfirst _ (hwall.trans hminute))
    · obtain ⟨k, hk, hread⟩ := z.read_skipped _ hskipped
      rw [hread, hk.unique hj]
      exact hvalue.symm

/-- A minute that is shown names the first instant that shows it, and no other. -/
theorem names_iff_of_shown {instant j : Int} (hshown : wallClock z.offset j = z.minute instant) :
    z.Names instant ↔ wallClock z.offset instant % 60000 = 0 ∧
      ∀ k, wallClock z.offset k = wallClock z.offset instant → instant ≤ k := by
  constructor
  · rintro (hfirst | ⟨hskipped, -⟩)
    · exact hfirst
    · exact absurd hshown (hskipped j)
  · exact .inl

/-- A zone that never moves its clocks. -/
def fixed (offset : Int) : Zone where
  offset := fun _ => offset
  read := fun wall => wall - offset
  read_shown := fun wall i h => by
    have hwall : i + offset = wall := h
    exact ⟨Int.sub_add_cancel wall offset, by omega⟩
  read_skipped := fun wall h => absurd (Int.sub_add_cancel wall offset) (h (wall - offset))

/-- A minute of a zone that never moves its clocks names its first instant. -/
theorem fixed_names_iff (offset instant : Int) :
    (fixed offset).Names instant ↔ (instant + offset) % 60000 = 0 := by
  rw [← read_minute_iff]
  show instant + offset - (instant + offset) % 60000 - offset = instant ↔ _
  omega

end Zone

/-! ## Every rule is a zone -/

section Existence
variable {offset : Int → Int} {bound : Int}
  (hbound : ∀ i, -bound ≤ offset i ∧ offset i ≤ bound)
include hbound

theorem exists_read_shown {wall i : Int} (hi : wallClock offset i = wall) :
    ∃ first, wallClock offset first = wall ∧ ∀ k, wallClock offset k = wall → first ≤ k := by
  refine Int.exists_least_of_bdd ⟨wall - bound, fun k hk => ?_⟩ ⟨i, hi⟩
  have := hbound k
  rw [wallClock] at hk
  omega

theorem exists_lastBefore (wall : Int) : ∃ j, LastBefore offset wall j := by
  obtain ⟨latest, ⟨hbefore, i, hi⟩, hlatest⟩ := Int.exists_greatest_of_bdd
    (P := fun v => v < wall ∧ ∃ i, wallClock offset i = v) ⟨wall, fun v hv => by omega⟩ (by
      refine ⟨_, ?_, wall - bound - 1, rfl⟩
      have := hbound (wall - bound - 1)
      rw [wallClock]
      omega)
  obtain ⟨j, hj, hlast⟩ := Int.exists_greatest_of_bdd
    (P := fun k => wallClock offset k = latest) ⟨latest + bound, fun k hk => by
      have := hbound k
      rw [wallClock] at hk
      omega⟩ ⟨i, hi⟩
  refine ⟨j, by omega, fun k hk => ?_, fun k hk => hlast k (hk.trans hj)⟩
  exact hj ▸ hlatest _ ⟨hk, k, rfl⟩

/-- **Any bounded offset** is that of a zone. -/
theorem exists_zone : ∃ z : Zone, z.offset = offset := by
  have hread : ∀ wall, ∃ r : Int,
      (∀ i, wallClock offset i = wall → wallClock offset r = wall ∧ r ≤ i) ∧
      ((∀ i, wallClock offset i ≠ wall) →
        ∃ j, LastBefore offset wall j ∧ r = wall - offset j) := by
    intro wall
    by_cases hshown : ∃ i, wallClock offset i = wall
    · obtain ⟨i, hi⟩ := hshown
      obtain ⟨first, hfirst, hleast⟩ := exists_read_shown hbound hi
      exact ⟨first, fun k hk => ⟨hfirst, hleast k hk⟩, fun hskipped => absurd hi (hskipped i)⟩
    · obtain ⟨j, hj⟩ := exists_lastBefore hbound wall
      exact ⟨wall - offset j, fun i hi => absurd ⟨i, hi⟩ hshown, fun _ => ⟨j, hj, rfl⟩⟩
  choose read hshown hskipped using hread
  exact ⟨⟨offset, read, hshown, hskipped⟩, rfl⟩

end Existence
end LocalTime
