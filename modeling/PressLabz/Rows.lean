import Mathlib.Data.List.Nodup
import Mathlib.Data.List.Pairwise

/-! # Rows with a primary key

A table as the list of its rows, looked up by the key each row carries.  The
lemmas say what the three kinds of statement do to a look-up: an insert
(`find_cons`), an update of some rows that leaves the keys alone (`find_map`),
and a delete of some keys (`find_filter`).  A look-up of a list without
duplicate keys finds exactly the rows of the list (`find_of_mem`).
-/
namespace Rows
variable {R I : Type} [DecidableEq I] (key : R → I)

/-- The row of a key. -/
def find (rows : List R) (id : I) : Option R := rows.find? fun r => key r = id

variable {key} {rows : List R} {id : I} {r : R}

theorem mem_of_find (h : find key rows id = some r) : r ∈ rows := List.mem_of_find?_eq_some h

theorem key_of_find (h : find key rows id = some r) : key r = id := by
  simpa using List.find?_some h

theorem find_eq_none : find key rows id = none ↔ ∀ r ∈ rows, key r ≠ id := by
  simp [find]

theorem find_of_mem (hnodup : (rows.map key).Nodup) (h : r ∈ rows) :
    find key rows (key r) = some r := by
  induction rows with
  | nil => cases h
  | cons x rest ih =>
    obtain ⟨hx, hrest⟩ := List.nodup_cons.mp hnodup
    rcases List.mem_cons.mp h with rfl | h
    · simp [find]
    · have hne : key x ≠ key r := fun heq => hx (heq ▸ List.mem_map_of_mem h)
      simpa [find, hne] using ih hrest h

/-- A row is the only one of its key. -/
theorem filter_of_mem (hnodup : (rows.map key).Nodup) (h : r ∈ rows) :
    rows.filter (fun x => key x = key r) = [r] := by
  induction rows with
  | nil => cases h
  | cons x rest ih =>
    obtain ⟨hx, hrest⟩ := List.nodup_cons.mp hnodup
    rcases List.mem_cons.mp h with rfl | h
    · rw [List.filter_cons_of_pos (by simp), List.filter_eq_nil_iff.mpr fun y hy heq => ?_]
      exact hx (List.mem_map.mpr ⟨y, hy, of_decide_eq_true heq⟩)
    · have hne : key x ≠ key r := fun heq => hx (heq ▸ List.mem_map_of_mem h)
      rw [List.filter_cons_of_neg (by simpa using hne)]
      exact ih hrest h

theorem find_cons (r : R) (rows : List R) (id : I) :
    find key (r :: rows) id = if key r = id then some r else find key rows id := by
  by_cases h : key r = id <;> simp [find, h]

theorem find_map {f : R → R} (hf : ∀ r, key (f r) = key r) :
    find key (rows.map f) id = (find key rows id).map f := by
  have hkey : (fun r => decide (key r = id)) ∘ f = fun r => decide (key r = id) := by
    funext r
    rw [Function.comp_apply, hf]
  rw [find, List.find?_map, hkey]
  rfl

theorem find_filter (key : R → I) (rows : List R) (id : I) (keep : I → Bool) :
    find key (rows.filter fun r => keep (key r)) id =
      if keep id = true then find key rows id else none := by
  induction rows with
  | nil => simp [find]
  | cons x rest ih =>
    by_cases hx : keep (key x) = true
    · rw [List.filter_cons_of_pos (p := fun r => keep (key r)) hx, find_cons, find_cons, ih]
      by_cases hid : key x = id
      · simp [hid, hid ▸ hx]
      · simp [hid]
    · rw [List.filter_cons_of_neg (p := fun r => keep (key r)) hx, ih, find_cons]
      by_cases hid : key x = id
      · simp [hid ▸ hx]
      · simp [hid]

/-- A unique index: rows that agree on its columns are one row. -/
theorem eq_of_unique {same : R → R → Prop} (hsymm : ∀ a b, same a b → same b a)
    (h : rows.Pairwise fun a b => ¬ same a b) {a b : R} (ha : a ∈ rows) (hb : b ∈ rows)
    (hab : same a b) : a = b := by
  by_contra hne
  have hsymm' : Std.Symm fun a b => ¬ same a b := ⟨fun a b hnot hba => hnot (hsymm b a hba)⟩
  exact h.forall ha hb hne hab

end Rows
