import Mathlib.Data.List.Sort
import Mathlib.Order.Defs.LinearOrder

/-! # The first match of a ranking

A list is ranked by a key, the greatest first and equal ones as they came, and the first
element with a property is taken.  That is the one with the greatest key among those that
have the property, and the earliest of them (`find?_ranked`).
-/
namespace Ranking
variable {α κ : Type} [LinearOrder κ] (key : α → κ) (p : α → Bool)

/-- The elements with the greatest key first; equal ones keep their order. -/
def ranked (l : List α) : List α := l.insertionSort fun a b => key b ≤ key a

/-- The element stands in the list with the property, and no other with the property has a
greater key, or the same and stands before it. -/
def IsFirst (l : List α) (x : α) : Prop :=
  ∃ before after, l = before ++ x :: after ∧ p x = true ∧
    (∀ a ∈ before, p a = true → key a < key x) ∧ ∀ a ∈ after, p a = true → key a ≤ key x

theorem pairwise_ranked (l : List α) :
    (ranked key l).Pairwise fun a b => key b ≤ key a := by
  have : Std.Total fun a b : α => key b ≤ key a := ⟨fun a b => le_total (key b) (key a)⟩
  have : IsTrans α fun a b => key b ≤ key a := ⟨fun _ _ _ hab hbc => hbc.trans hab⟩
  exact List.pairwise_insertionSort _ l

theorem mem_ranked {l : List α} {a : α} : a ∈ ranked key l ↔ a ∈ l := List.mem_insertionSort _

/-- An element that is inserted becomes the first match if it has the property, unless the
first match so far has a greater key. -/
theorem find?_orderedInsert (a : α) {l : List α} (h : l.Pairwise fun a b => key b ≤ key a) :
    (l.orderedInsert (fun a b => key b ≤ key a) a).find? p =
      if p a then some (((l.find? p).filter fun x => key a < key x).getD a) else l.find? p := by
  induction l with
  | nil =>
    rw [List.orderedInsert_nil, List.find?_singleton]
    rfl
  | cons b rest ih =>
    rw [List.pairwise_cons] at h
    rw [List.orderedInsert_cons]
    split
    · rename_i hle
      rw [List.find?_cons (a := a)]
      cases ha : p a with
      | false => rfl
      | true =>
        -- whatever is found is not greater than the head
        have hnone : (((b :: rest).find? p).filter fun x => key a < key x) = none := by
          refine Option.filter_eq_none_iff.mpr fun x hx => ?_
          have hmem := List.mem_of_find?_eq_some hx
          have hxb : key x ≤ key b := by
            rcases List.mem_cons.mp hmem with rfl | hmem
            · exact le_refl _
            · exact h.1 x hmem
          simpa using hxb.trans hle
        rw [hnone]
        rfl
    · rename_i hlt
      rw [List.find?_cons (a := b), List.find?_cons (a := b)]
      cases hb : p b with
      | false => exact ih h.2
      | true =>
        cases ha : p a with
        | false => rfl
        | true =>
          simp only [if_true, Option.filter_some, not_le.mp hlt, decide_true, Option.getD_some]

section First
variable {key p} {l : List α} {a x : α}

theorem IsFirst.mem (h : IsFirst key p l x) : x ∈ l ∧ p x = true := by
  obtain ⟨before, after, rfl, hp, -, -⟩ := h
  exact ⟨List.mem_append_right _ List.mem_cons_self, hp⟩

theorem IsFirst.le (h : IsFirst key p l x) : ∀ b ∈ l, p b = true → key b ≤ key x := by
  obtain ⟨before, after, rfl, hp, hbefore, hafter⟩ := h
  intro b hb hpb
  rcases List.mem_append.mp hb with hb | hb
  · exact (hbefore b hb hpb).le
  · rcases List.mem_cons.mp hb with rfl | hb
    · exact le_refl _
    · exact hafter b hb hpb

theorem isFirst_cons : IsFirst key p (a :: l) x ↔
    (p a = true ∧ x = a ∧ ∀ b ∈ l, p b = true → key b ≤ key a) ∨
      (IsFirst key p l x ∧ (p a = true → key a < key x)) := by
  constructor
  · rintro ⟨before, after, heq, hp, hbefore, hafter⟩
    cases before with
    | nil =>
      obtain ⟨rfl, rfl⟩ := List.cons.inj heq
      exact .inl ⟨hp, rfl, hafter⟩
    | cons b before =>
      obtain ⟨rfl, rfl⟩ := List.cons.inj heq
      exact .inr ⟨⟨before, after, rfl, hp, fun c hc => hbefore c (List.mem_cons_of_mem a hc), hafter⟩,
        hbefore a List.mem_cons_self⟩
  · rintro (⟨hp, rfl, hle⟩ | ⟨⟨before, after, rfl, hp, hbefore, hafter⟩, ha⟩)
    · exact ⟨[], l, rfl, hp, fun _ h => absurd h List.not_mem_nil, hle⟩
    · refine ⟨a :: before, after, rfl, hp, fun c hc hpc => ?_, hafter⟩
      rcases List.mem_cons.mp hc with rfl | hc
      · exact ha hpc
      · exact hbefore c hc hpc

end First

/-- **The first match of a ranking** is the first element of the list with the property and
the greatest key. -/
theorem find?_ranked {l : List α} {x : α} :
    (ranked key l).find? p = some x ↔ IsFirst key p l x := by
  induction l generalizing x with
  | nil =>
    refine iff_of_false (fun h => by cases h) ?_
    rintro ⟨before, after, hnil, -⟩
    simp at hnil
  | cons a rest ih =>
    have hinsert : (ranked key (a :: rest)).find? p =
        if p a then some ((((ranked key rest).find? p).filter fun x => key a < key x).getD a)
        else (ranked key rest).find? p := find?_orderedInsert key p a (pairwise_ranked key rest)
    rw [hinsert, isFirst_cons, ← ih]
    cases ha : p a with
    | false => simp
    | true =>
      cases hfind : (ranked key rest).find? p with
      | none =>
        have hno : ∀ b ∈ rest, p b = true → key b ≤ key a := fun b hb hpb =>
          absurd hpb (List.find?_eq_none.mp hfind b ((mem_ranked key).mpr hb))
        simp only [if_true, Option.filter_none, Option.getD_none, Option.some.injEq, true_and,
          reduceCtorEq, false_and, or_false, eq_comm (a := a)]
        exact (and_iff_left hno).symm
      | some z =>
        have hz := ih.mp hfind
        by_cases hlt : key a < key z
        · have hnot : ¬ ∀ b ∈ rest, p b = true → key b ≤ key a := fun hall =>
            absurd (hall z hz.mem.1 hz.mem.2) (not_le.mpr hlt)
          simp only [if_true, Option.filter_some, hlt, decide_true, Option.getD_some,
            Option.some.injEq, hnot, and_false, false_or, true_implies]
          constructor
          · rintro rfl
            exact ⟨rfl, hlt⟩
          · exact fun h => h.1
        · have hall : ∀ b ∈ rest, p b = true → key b ≤ key a := fun b hb hpb =>
            (hz.le b hb hpb).trans (not_lt.mp hlt)
          simp only [if_true, Option.filter_some, hlt, decide_false, Bool.false_eq_true, if_false,
            Option.getD_none, Option.some.injEq, true_and, true_implies]
          constructor
          · rintro rfl
            exact .inl ⟨rfl, hall⟩
          · rintro (⟨rfl, -⟩ | ⟨rfl, habove⟩)
            · rfl
            · exact absurd habove hlt

end Ranking
