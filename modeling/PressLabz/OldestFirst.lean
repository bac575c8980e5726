import Mathlib.Data.List.Sort
import Mathlib.Order.Defs.LinearOrder

/-! # Batches, the oldest first

Items wait, each with a key and an age, and are served in passes.  A pass takes up to `limit`
of the oldest; of these the ones with a stuck key keep their place, and the others leave.  A
place is all a stuck item takes, so any other is sure to be served after some passes if and
only if fewer than `limit` stuck items are ahead of it (`served_iff`).
-/
namespace OldestFirst
variable {S α κ ι : Type} [LinearOrder ι] [DecidableEq κ]

section Batch
variable (key : α → κ) (age : α → ι) (stuck : κ → Bool) (limit : Nat)

/-- What a query may answer that asks for `limit` items in the order of their age: between
items of one age the choice is its own. -/
structure IsOldest (items batch : List α) : Prop where
  length : batch.length = min limit items.length
  sorted : batch.Pairwise (age · ≤ age ·)
  rest : ∃ rest, (batch ++ rest).Perm items ∧ ∀ a ∈ batch, ∀ b ∈ rest, age a ≤ age b

/-- What is left of the items after a batch: whoever stays may have a note made on it. -/
def Served (items batch items' : List α) : Prop :=
  ∃ note : α → α, (∀ a, key (note a) = key a ∧ age (note a) = age a) ∧
    items' = (items.filter fun a => stuck (key a) || key a ∉ batch.map key).map note

/-- The stuck items that stand before `a`, or beside it. -/
def ahead (items : List α) (a : α) : Nat :=
  items.countP fun b => stuck (key b) && age b ≤ age a

/-- The items that can be served. -/
def waiting (items : List α) : Nat := items.countP fun a => !stuck (key a)

variable {key age stuck limit} {items batch items' : List α} {a : α}

theorem IsOldest.subset (h : IsOldest age limit items batch) : batch ⊆ items := by
  obtain ⟨rest, hperm, -⟩ := h.rest
  exact fun b hb => hperm.subset (List.mem_append_left rest hb)

omit [DecidableEq κ] in
/-- A batch of stuck items only stands before whatever it left out. -/
theorem exists_served (ha : a ∈ items) (hstuck : stuck (key a) = false)
    (hahead : ahead key age stuck items a < limit) (h : IsOldest age limit items batch) :
    ∃ b ∈ batch, stuck (key b) = false := by
  by_contra hall
  push Not at hall
  obtain ⟨rest, hperm, hage⟩ := h.rest
  have hrest : a ∈ rest := by
    rcases List.mem_append.mp (hperm.mem_iff.mpr ha) with hb | hrest
    · exact absurd hstuck (hall a hb)
    · exact hrest
  have hlength : batch.length + rest.length = items.length := by
    rw [← hperm.length_eq, List.length_append]
  have hpos : 0 < rest.length := List.length_pos_of_mem hrest
  have hfull : batch.countP (fun b => stuck (key b) && age b ≤ age a) = batch.length := by
    refine List.countP_eq_length.mpr fun b hb => ?_
    simp [hage b hb a hrest, hall b hb]
  have hcount : batch.length ≤ ahead key age stuck items a := by
    rw [ahead, ← hperm.countP_eq, List.countP_append, hfull]
    exact Nat.le_add_right _ _
  have hlimit := h.length
  omega

omit [LinearOrder ι] in
/-- Two batches served one after the other are served as one. -/
theorem Served.trans {first second mid : List α}
    (h : Served key age stuck items first mid) (h' : Served key age stuck mid second items') :
    Served key age stuck items (first ++ second) items' := by
  obtain ⟨note, hnote, rfl⟩ := h
  obtain ⟨note', hnote', rfl⟩ := h'
  refine ⟨note' ∘ note, fun a => ⟨(hnote' _).1.trans (hnote a).1, (hnote' _).2.trans (hnote a).2⟩,
    ?_⟩
  rw [List.filter_map, List.map_map, List.filter_filter]
  refine congrArg _ (List.filter_congr fun a _ => ?_)
  rw [Function.comp_apply, (hnote a).1, Bool.eq_iff_iff]
  simp only [Bool.and_eq_true, Bool.or_eq_true, decide_eq_true_eq, List.map_append,
    List.mem_append]
  tauto

omit [LinearOrder ι] in
theorem Served.mem_iff (h : Served key age stuck items batch items') {k : κ} :
    k ∈ items'.map key ↔ k ∈ items.map key ∧ (stuck k = true ∨ k ∉ batch.map key) := by
  obtain ⟨note, hnote, rfl⟩ := h
  have hkey : key ∘ note = key := funext fun a => (hnote a).1
  rw [List.map_map, hkey]
  simp only [List.mem_map, List.mem_filter, Bool.or_eq_true, decide_eq_true_eq]
  constructor
  · rintro ⟨b, ⟨hb, hstay⟩, rfl⟩
    exact ⟨⟨b, hb, rfl⟩, hstay⟩
  · rintro ⟨⟨b, hb, rfl⟩, hstay⟩
    exact ⟨b, ⟨hb, hstay⟩, rfl⟩

omit [LinearOrder ι] in
theorem Served.nodup (h : Served key age stuck items batch items')
    (hnodup : (items.map key).Nodup) : (items'.map key).Nodup := by
  obtain ⟨note, hnote, rfl⟩ := h
  have hkey : key ∘ note = key := funext fun a => (hnote a).1
  rw [List.map_map, hkey]
  exact hnodup.sublist (List.filter_sublist.map key)

/-- An item that stays has the same number of stuck items ahead. -/
theorem Served.ahead_eq (h : Served key age stuck items batch items') {b : α}
    (hb : age b = age a) : ahead key age stuck items' b = ahead key age stuck items a := by
  obtain ⟨note, hnote, rfl⟩ := h
  rw [ahead, List.countP_map, List.countP_filter, ahead]
  refine List.countP_congr fun c _ => ?_
  simp only [Function.comp_apply, (hnote c).1, (hnote c).2, hb, Bool.and_eq_true, Bool.or_eq_true]
  tauto

omit [LinearOrder ι] in
theorem Served.exists_old (h : Served key age stuck items batch items') {b : α} (hb : b ∈ items') :
    ∃ a ∈ items, key b = key a ∧ age b = age a := by
  obtain ⟨note, hnote, rfl⟩ := h
  obtain ⟨a, ha, rfl⟩ := List.mem_map.mp hb
  exact ⟨a, List.mem_of_mem_filter ha, (hnote a).1, (hnote a).2⟩

/-- Each pass serves one item at least, while one is there with fewer than `limit` ahead. -/
theorem Served.waiting_lt (h : Served key age stuck items batch items')
    (hbatch : IsOldest age limit items batch) (ha : a ∈ items) (hstuck : stuck (key a) = false)
    (hahead : ahead key age stuck items a < limit) :
    waiting key stuck items' < waiting key stuck items := by
  obtain ⟨b, hb, hbstuck⟩ := exists_served ha hstuck hahead hbatch
  obtain ⟨note, hnote, rfl⟩ := h
  have hkey : (fun a => !stuck (key a)) ∘ note = fun a => !stuck (key a) :=
    funext fun a => by rw [Function.comp_apply, (hnote a).1]
  rw [waiting, List.countP_map, hkey, waiting, List.countP_eq_length_filter,
    List.countP_eq_length_filter, List.filter_comm, List.length_filter_lt_length_iff_exists]
  refine ⟨b, List.mem_filter.mpr ⟨hbatch.subset hb, by simp [hbstuck]⟩, ?_⟩
  simp only [hbstuck, Bool.false_or, decide_eq_true_eq, not_not]
  exact List.mem_map_of_mem hb

omit [DecidableEq κ] in
theorem isOldest_take {sorted : List α} (hperm : sorted.Perm items)
    (hsorted : sorted.Pairwise (age · ≤ age ·)) :
    IsOldest age limit items (sorted.take limit) where
  length := by rw [List.length_take, hperm.length_eq]
  sorted := hsorted.sublist (List.take_sublist limit sorted)
  rest := by
    refine ⟨sorted.drop limit, by rwa [List.take_append_drop], ?_⟩
    rw [← List.take_append_drop limit sorted] at hsorted
    exact (List.pairwise_append.mp hsorted).2.2

/-! ## The worst batch -/

/-- One item stands before another if it is older, or as old and stuck. -/
def Before (key : α → κ) (age : α → ι) (stuck : κ → Bool) (a b : α) : Prop :=
  age a < age b ∨ age a = age b ∧ (stuck (key a) = true ∨ stuck (key b) = false)

instance : DecidableRel (Before key age stuck) := fun a b =>
  inferInstanceAs (Decidable (age a < age b ∨ age a = age b ∧ _))

omit [DecidableEq κ] in
theorem age_le_of_before {a b : α} (h : Before key age stuck a b) : age a ≤ age b := by
  rcases h with h | ⟨h, -⟩
  · exact h.le
  · exact h.le

omit [DecidableEq κ] in
theorem before_total (a b : α) : Before key age stuck a b ∨ Before key age stuck b a := by
  unfold Before
  rcases lt_trichotomy (age a) (age b) with h | h | h
  · exact .inl (.inl h)
  · cases hb : stuck (key b) with
    | true => exact .inr (.inr ⟨h.symm, .inl rfl⟩)
    | false => exact .inl (.inr ⟨h, .inr rfl⟩)
  · exact .inr (.inl h)

omit [DecidableEq κ] in
theorem before_trans {a b c : α} (hab : Before key age stuck a b) (hbc : Before key age stuck b c) :
    Before key age stuck a c := by
  unfold Before at *
  rcases hab with hab | ⟨hab, hs⟩
  · rcases hbc with hbc | ⟨hbc, -⟩
    · exact .inl (hab.trans hbc)
    · exact .inl (hbc ▸ hab)
  · rcases hbc with hbc | ⟨hbc, ht⟩
    · exact .inl (hab ▸ hbc)
    · refine .inr ⟨hab.trans hbc, ?_⟩
      rcases hs with hs | hs
      · exact .inl hs
      · rcases ht with ht | ht
        · rw [hs] at ht
          cases ht
        · exact .inr ht

omit [DecidableEq κ] in
/-- The items ahead of one that can be served stand before it in the list. -/
theorem ahead_le_of_sorted {front back : List α}
    (hsorted : (front ++ a :: back).Pairwise (Before key age stuck)) (hstuck : stuck (key a) = false)
    (hperm : (front ++ a :: back).Perm items) : ahead key age stuck items a ≤ front.length := by
  have hback : back.countP (fun b => stuck (key b) && age b ≤ age a) = 0 := by
    refine List.countP_eq_zero.mpr fun b hb hahead => ?_
    have hbefore : Before key age stuck a b :=
      List.rel_of_pairwise_cons (List.pairwise_append.mp hsorted).2.1 hb
    rw [Bool.and_eq_true, decide_eq_true_eq] at hahead
    rcases hbefore with hlt | ⟨-, hs | hs⟩
    · exact absurd hahead.2 (not_le.mpr hlt)
    · rw [hstuck] at hs
      cases hs
    · rw [hs] at hahead
      cases hahead.1
  rw [ahead, ← hperm.countP_eq, List.countP_append, List.countP_cons, hback, hstuck]
  simpa using List.countP_le_length

omit [DecidableEq κ] in
/-- A choice that prefers the stuck ones never comes to an item behind `limit` of them. -/
theorem exists_batch_without (hnodup : (items.map key).Nodup) (ha : a ∈ items)
    (hstuck : stuck (key a) = false) (hahead : limit ≤ ahead key age stuck items a) :
    ∃ batch, IsOldest age limit items batch ∧ key a ∉ batch.map key := by
  have : Std.Total (Before key age stuck) := ⟨before_total⟩
  have : IsTrans α (Before key age stuck) := ⟨fun _ _ _ => before_trans⟩
  have hperm := List.perm_insertionSort (Before key age stuck) items
  have hsorted := List.pairwise_insertionSort (Before key age stuck) items
  generalize items.insertionSort (Before key age stuck) = sorted at hperm hsorted
  refine ⟨sorted.take limit, isOldest_take hperm (hsorted.imp age_le_of_before), fun hmem => ?_⟩
  obtain ⟨b, hb, hkey⟩ := List.mem_map.mp hmem
  have hitem : b ∈ items := hperm.subset (List.mem_of_mem_take hb)
  obtain rfl := List.inj_on_of_nodup_map hnodup hitem ha hkey
  obtain ⟨front, back, htake⟩ := List.append_of_mem hb
  have hwhole : front ++ b :: (back ++ sorted.drop limit) = sorted := by
    rw [← List.cons_append, ← List.append_assoc, ← htake, List.take_append_drop]
  rw [← hwhole] at hsorted hperm
  have hle := ahead_le_of_sorted hsorted hstuck hperm
  have hlength : front.length + 1 + back.length ≤ limit := by
    have := List.length_take_le limit sorted
    rw [htake, List.length_append, List.length_cons] at this
    omega
  omega

end Batch

/-! ## Services -/

/-- Something that serves its items in passes. -/
structure Service (S α κ ι : Type) [LinearOrder ι] [DecidableEq κ] where
  items : S → List α
  key : α → κ
  age : α → ι
  stuck : κ → Bool
  limit : Nat
  Pass : S → S → Prop
  serves : ∀ s s', Pass s s' → ∃ batch, IsOldest age limit (items s) batch ∧
    Served key age stuck (items s) batch (items s')
  /-- Whatever batch the query answers, there is a pass over it. -/
  offers : ∀ s batch, IsOldest age limit (items s) batch → ∃ s', Pass s s' ∧
    Served key age stuck (items s) batch (items s')

namespace Service
variable (v : Service S α κ ι)

inductive Passes : Nat → S → S → Prop where
  | none (s : S) : Passes 0 s s
  | one {n : Nat} {s mid left : S} : v.Pass s mid → Passes n mid left → Passes (n + 1) s left

variable {v} {n : Nat} {s left : S} {a : α}

theorem Passes.absent {k : κ} (hpasses : v.Passes n s left) (h : k ∉ (v.items s).map v.key) :
    k ∉ (v.items left).map v.key := by
  induction hpasses with
  | none s => exact h
  | one hpass _ ih =>
    obtain ⟨batch, -, hserved⟩ := v.serves _ _ hpass
    exact ih fun hmid => h (hserved.mem_iff.mp hmid).1

/-- An item that is still there after a pass has the same number of stuck items ahead. -/
theorem exists_kept {items batch items' : List α} (hnodup : (items.map v.key).Nodup)
    (hserved : Served v.key v.age v.stuck items batch items') (ha : a ∈ items)
    (hstays : v.key a ∈ items'.map v.key) :
    ∃ b ∈ items', v.key b = v.key a ∧
      ahead v.key v.age v.stuck items' b = ahead v.key v.age v.stuck items a := by
  obtain ⟨b, hb, hkey⟩ := List.mem_map.mp hstays
  obtain ⟨c, hc, hckey, hage⟩ := hserved.exists_old hb
  obtain rfl := List.inj_on_of_nodup_map hnodup hc ha (hckey.symm.trans hkey)
  exact ⟨b, hb, hkey, hserved.ahead_eq hage⟩

/-- **With fewer than `limit` stuck items ahead** an item is served: each pass until then serves
another one. -/
theorem served_in_time (hnodup : ((v.items s).map v.key).Nodup) (ha : a ∈ v.items s)
    (hstuck : v.stuck (v.key a) = false)
    (hahead : ahead v.key v.age v.stuck (v.items s) a < v.limit) (hpasses : v.Passes n s left)
    (hn : waiting v.key v.stuck (v.items s) ≤ n) : v.key a ∉ (v.items left).map v.key := by
  induction hpasses generalizing a with
  | none s =>
    have hnone := List.countP_eq_zero.mp (Nat.le_zero.mp hn) a ha
    simp [hstuck] at hnone
  | @one n s mid left hpass hpasses ih =>
    obtain ⟨batch, hbatch, hserved⟩ := v.serves s mid hpass
    have hlt := hserved.waiting_lt hbatch ha hstuck hahead
    by_cases hstays : v.key a ∈ (v.items mid).map v.key
    · obtain ⟨b, hb, hkey, hsame⟩ := exists_kept hnodup hserved ha hstays
      rw [← hkey]
      exact ih (hserved.nodup hnodup) hb (hkey ▸ hstuck) (hsame ▸ hahead) (by omega)
    · exact hpasses.absent hstays

/-- **Behind `limit` stuck items** a choice of batches never comes to an item. -/
theorem blocked (hnodup : ((v.items s).map v.key).Nodup) (ha : a ∈ v.items s)
    (hstuck : v.stuck (v.key a) = false)
    (hahead : v.limit ≤ ahead v.key v.age v.stuck (v.items s) a) (n : Nat) :
    ∃ left, v.Passes n s left ∧ v.key a ∈ (v.items left).map v.key := by
  induction n generalizing s a with
  | zero => exact ⟨s, .none s, List.mem_map_of_mem ha⟩
  | succ n ih =>
    obtain ⟨batch, hbatch, hout⟩ := exists_batch_without hnodup ha hstuck hahead
    obtain ⟨mid, hpass, hserved⟩ := v.offers s batch hbatch
    have hstays : v.key a ∈ (v.items mid).map v.key :=
      hserved.mem_iff.mpr ⟨List.mem_map_of_mem ha, .inr hout⟩
    obtain ⟨b, hb, hkey, hsame⟩ := exists_kept hnodup hserved ha hstays
    rw [← hsame] at hahead
    obtain ⟨left, hpasses, hleft⟩ := ih (hserved.nodup hnodup) hb (hkey ▸ hstuck) hahead
    exact ⟨left, .one hpass hpasses, hkey ▸ hleft⟩

theorem exists_passes (n : Nat) (s : S) : ∃ left, v.Passes n s left := by
  induction n generalizing s with
  | zero => exact ⟨s, .none s⟩
  | succ n ih =>
    have : Std.Total fun a b : α => v.age a ≤ v.age b := ⟨fun a b => le_total _ _⟩
    have : IsTrans α fun a b : α => v.age a ≤ v.age b := ⟨fun _ _ _ => le_trans⟩
    obtain ⟨mid, hpass, -⟩ := v.offers s _ (isOldest_take
      (List.perm_insertionSort (fun a b : α => v.age a ≤ v.age b) (v.items s))
      (List.pairwise_insertionSort _ _))
    obtain ⟨left, hpasses⟩ := ih mid
    exact ⟨left, .one hpass hpasses⟩

/-- **An item is sure to be served** exactly if fewer than `limit` stuck ones are ahead of it. -/
theorem served_iff (hnodup : ((v.items s).map v.key).Nodup) (ha : a ∈ v.items s)
    (hstuck : v.stuck (v.key a) = false) :
    (∃ n, ∀ left, v.Passes n s left → v.key a ∉ (v.items left).map v.key) ↔
      ahead v.key v.age v.stuck (v.items s) a < v.limit := by
  constructor
  · rintro ⟨n, hserved⟩
    by_contra hahead
    obtain ⟨left, hpasses, hkey⟩ := blocked hnodup ha hstuck (not_lt.mp hahead) n
    exact hserved left hpasses hkey
  · exact fun hahead => ⟨_, fun left hpasses =>
      served_in_time hnodup ha hstuck hahead hpasses le_rfl⟩

end Service
end OldestFirst
