import Mathlib.Data.Finset.Card
import Mathlib.Data.List.Sort
import Mathlib.Order.Defs.LinearOrder

/-! # Pages by key

A listing sorted by a key, greatest first, that is read a page at a time.  A
request names where the page before it stopped, and gets the rows strictly after
that place; what it is told to name next is `mark` of the last key, which may be
coarser than the key itself.  A request reads `fetch` rows and keeps `limit` of
them: there is a next page when it read more than it kept.

The rows may change between two requests.  A walk is in order whatever they do
(`Walk.descending`), as long as a mark is never above its key.  It misses no row
that stays (`Walk.complete`) where each page cuts cleanly for the keys that matter
(`CutsFor`): the extra row is read, and all of them after the page are below the mark.
Where a walk misses none of them and says rightly which page is the last, each page did
(`Walk.cuts_of_complete`).
-/
namespace Keyset
variable {R K : Type} [LinearOrder K]

/-- A page, and where the next one starts. -/
structure Page (R K : Type) where
  rows : List R
  next : Option K

section Requests
variable (key : R → K) (mark : K → K) (fetch limit : Nat) (cursor : Option K) (rows : List R)

/-- What remains of the rows after the cursor, in order. -/
def remaining : List R :=
  (rows.filter fun r => cursor.all (key r < ·)).insertionSort fun a b => key b ≤ key a

/-- The answer to one request. -/
def page : Page R K :=
  let found := (remaining key cursor rows).take fetch
  let kept := found.take limit
  { rows := kept
    next := if kept.length < found.length then kept.getLast?.map fun r => mark (key r)
      else none }

/-- The page ends where none of the keys in `S` is lost: nothing is left, or the row
after it is read and those that are left are below the mark. -/
def CutsFor (S : K → Prop) : Prop :=
  (remaining key cursor rows).length ≤ limit ∨ limit < fetch ∧
    ∀ l ∈ ((remaining key cursor rows).take limit).getLast?,
      ∀ r ∈ (remaining key cursor rows).drop limit, S (key r) → key r < mark (key l)

end Requests

/-- A walk to the last page: the rows there are at each request, and the page it
gets.  `P` holds of every request. -/
inductive Walk (key : R → K) (mark : K → K) (fetch limit : Nat)
    (P : Option K → List R → Prop) : Option K → List (List R) → List (Page R K) → Prop
  | done {cursor : Option K} {rows : List R} : P cursor rows →
      (page key mark fetch limit cursor rows).next = none →
      Walk key mark fetch limit P cursor [rows] [page key mark fetch limit cursor rows]
  | more {cursor : Option K} {rows : List R} {next : K} {moments : List (List R)}
      {pages : List (Page R K)} : P cursor rows →
      (page key mark fetch limit cursor rows).next = some next →
      Walk key mark fetch limit P (some next) moments pages →
      Walk key mark fetch limit P cursor (rows :: moments)
        (page key mark fetch limit cursor rows :: pages)

variable {key : R → K} {mark : K → K} {fetch limit : Nat} {cursor : Option K} {rows : List R}
  {r : R}

/-! ## Sorting what is left -/

section Filter
variable {r : R → R → Prop} [DecidableRel r]

/-- An item before all others is put first. -/
theorem orderedInsert_first {a : R} {l : List R} (h : ∀ b ∈ l, r a b) :
    l.orderedInsert r a = a :: l := by
  cases l with
  | nil => rfl
  | cons b rest => exact List.orderedInsert_cons_of_le _ _ (h b List.mem_cons_self)

theorem filter_orderedInsert [IsTrans R r] (p : R → Bool) (a : R) {l : List R}
    (hl : l.Pairwise r) : (l.orderedInsert r a).filter p =
      if p a then (l.filter p).orderedInsert r a else l.filter p := by
  induction l with
  | nil => cases hp : p a <;> simp [hp]
  | cons b rest ih =>
    obtain ⟨hb, hrest⟩ := List.pairwise_cons.mp hl
    by_cases hab : r a b
    · have hfirst : ∀ c ∈ (b :: rest).filter p, r a c := fun c hc => by
        rcases List.mem_cons.mp (List.mem_filter.mp hc).1 with rfl | hc
        · exact hab
        · exact IsTrans.trans _ _ _ hab (hb c hc)
      rw [List.orderedInsert_cons_of_le _ _ hab, List.filter_cons, orderedInsert_first hfirst]
    · rw [List.orderedInsert_of_not_le _ _ hab, List.filter_cons, ih hrest, List.filter_cons]
      cases hpb : p b with
      | false => rfl
      | true =>
        cases hpa : p a with
        | false => rfl
        | true => simp only [if_true, List.orderedInsert_of_not_le _ _ hab]

/-- **Some of a sorted list** is those sorted. -/
theorem filter_insertionSort [IsTrans R r] [Std.Total r] (p : R → Bool) (l : List R) :
    (l.insertionSort r).filter p = (l.filter p).insertionSort r := by
  induction l with
  | nil => rfl
  | cons a rest ih =>
    rw [List.insertionSort_cons, filter_orderedInsert p a (List.pairwise_insertionSort r rest),
      ih, List.filter_cons]
    cases p a with
    | true => rfl
    | false => rfl

end Filter

/-! ## One page -/

theorem mem_remaining : r ∈ remaining key cursor rows ↔ r ∈ rows ∧ ∀ c ∈ cursor, key r < c := by
  unfold remaining
  rw [List.mem_insertionSort, List.mem_filter]
  cases cursor with
  | none => simp
  | some c => simp

/-- Without duplicate keys the order is strict. -/
theorem remaining_pairwise (hnodup : (rows.map key).Nodup) :
    (remaining key cursor rows).Pairwise fun a b => key b < key a := by
  have htotal : Std.Total fun a b : R => key b ≤ key a := ⟨fun a b => le_total (key b) (key a)⟩
  have htrans : IsTrans R fun a b => key b ≤ key a := ⟨fun _ _ _ hab hbc => le_trans hbc hab⟩
  have hsorted : (remaining key cursor rows).Pairwise fun a b => key b ≤ key a :=
    List.pairwise_insertionSort _ _
  have hne : (remaining key cursor rows).Pairwise fun a b => key a ≠ key b := by
    have hfilter : ((rows.filter fun r => cursor.all (key r < ·)).map key).Nodup :=
      hnodup.sublist (List.filter_sublist.map key)
    have hperm := (List.perm_insertionSort (fun a b : R => key b ≤ key a)
      (rows.filter fun r => cursor.all (key r < ·))).map key
    exact List.pairwise_map.mp (hperm.nodup_iff.mpr hfilter)
  exact (hsorted.and hne).imp fun hab => lt_of_le_of_ne hab.1 hab.2.symm

/-- A page is the beginning of what remains. -/
theorem page_rows (hfetch : limit ≤ fetch) :
    (page key mark fetch limit cursor rows).rows = (remaining key cursor rows).take limit := by
  show ((remaining key cursor rows).take fetch).take limit = _
  rw [List.take_take, Nat.min_eq_left hfetch]

/-- A page that says there is more has more after it. -/
theorem page_next {next : K} (h : (page key mark fetch limit cursor rows).next = some next) :
    limit < (remaining key cursor rows).length ∧
      ∃ l, (page key mark fetch limit cursor rows).rows.getLast? = some l ∧
        next = mark (key l) := by
  simp only [page] at h
  split at h
  · rename_i hmore
    obtain ⟨l, hl, rfl⟩ := Option.map_eq_some_iff.mp h
    refine ⟨?_, l, hl, rfl⟩
    simp only [List.length_take] at hmore
    omega
  · cases h

/-- **Where a page cuts cleanly**, it says there is more exactly when there is, and
everything that is left and matters is below what it says. -/
theorem page_cuts {S : K → Prop} (hpos : 0 < limit) (hfetch : limit ≤ fetch)
    (h : CutsFor key mark fetch limit cursor rows S) :
    ((page key mark fetch limit cursor rows).next = none ↔
      (remaining key cursor rows).length ≤ limit) ∧
    ∀ next, (page key mark fetch limit cursor rows).next = some next →
      ∀ r ∈ (remaining key cursor rows).drop limit, S (key r) → key r < next := by
  by_cases hlen : (remaining key cursor rows).length ≤ limit
  · have hnone : (page key mark fetch limit cursor rows).next = none := by
      cases hn : (page key mark fetch limit cursor rows).next with
      | none => rfl
      | some next =>
        have := (page_next hn).1
        omega
    refine ⟨iff_of_true hnone hlen, fun next hnext => ?_⟩
    rw [hnone] at hnext
    cases hnext
  · -- There is a row after the page, and it was read.
    obtain ⟨hextra, hbelow⟩ := h.resolve_left hlen
    have hkept : ((remaining key cursor rows).take fetch).take limit =
        (remaining key cursor rows).take limit := by
      rw [List.take_take, Nat.min_eq_left hfetch]
    have hmore : (((remaining key cursor rows).take fetch).take limit).length <
        ((remaining key cursor rows).take fetch).length := by
      simp only [List.length_take]
      omega
    obtain ⟨l, hl⟩ : ∃ l, ((remaining key cursor rows).take limit).getLast? = some l := by
      cases hlast : ((remaining key cursor rows).take limit).getLast? with
      | some l => exact ⟨l, rfl⟩
      | none =>
        have hnil := congrArg List.length (List.getLast?_eq_none_iff.mp hlast)
        rw [List.length_take, List.length_nil] at hnil
        omega
    have hnext : (page key mark fetch limit cursor rows).next = some (mark (key l)) := by
      show (if _ then _ else _) = _
      rw [if_pos hmore, hkept, hl, Option.map_some]
    constructor
    · rw [hnext]
      exact iff_of_false (Option.some_ne_none _) hlen
    · intro next heq r hr hS
      rw [hnext] at heq
      exact Option.some.inj heq ▸ hbelow l hl r hr hS

/-- A page that says there is more read a row more than it keeps. -/
theorem fetch_of_next {next : K}
    (h : (page key mark fetch limit cursor rows).next = some next) : limit < fetch := by
  simp only [page] at h
  split at h
  · rename_i hmore
    simp only [List.length_take] at hmore
    omega
  · cases h

/-- The rows of a page are at or above its last one. -/
theorem le_of_mem_page {l : R} (hfetch : limit ≤ fetch) (hnodup : (rows.map key).Nodup)
    (hl : (page key mark fetch limit cursor rows).rows.getLast? = some l)
    (hr : r ∈ (page key mark fetch limit cursor rows).rows) : key l ≤ key r := by
  have hsorted : ((remaining key cursor rows).take limit).Pairwise fun a b => key b < key a :=
    (remaining_pairwise hnodup).sublist (List.take_sublist limit _)
  rw [page_rows hfetch] at hl hr
  obtain ⟨init, hinit⟩ := List.getLast?_eq_some_iff.mp hl
  rw [hinit] at hr hsorted
  rcases List.mem_append.mp hr with hr | hr
  · exact ((List.pairwise_append.mp hsorted).2.2 r hr l (List.mem_singleton_self l)).le
  · exact (List.mem_singleton.mp hr) ▸ le_refl _

/-- Fewer keys are below a cursor that one of them was below and is not below any more. -/
theorem card_below_lt {keys : Finset K} {k next : K} (hk : k ∈ keys)
    (hcursor : ∀ c ∈ cursor, k < c) (hnext : next ≤ k) :
    (keys.filter fun key => ∀ c ∈ some next, key < c).card <
      (keys.filter fun key => ∀ c ∈ cursor, key < c).card := by
  apply Finset.card_lt_card
  refine (Finset.ssubset_iff_of_subset fun key hkey => ?_).mpr ⟨k, ?_, ?_⟩
  · obtain ⟨hkey, hlt⟩ := Finset.mem_filter.mp hkey
    exact Finset.mem_filter.mpr ⟨hkey, fun c hc =>
      (hlt next rfl).trans (hnext.trans_lt (hcursor c hc))⟩
  · exact Finset.mem_filter.mpr ⟨hk, hcursor⟩
  · intro hbelow
    exact absurd ((Finset.mem_filter.mp hbelow).2 next rfl) (not_lt_of_ge hnext)

/-! ## Walks -/

section Walks
variable {P : Option K → List R → Prop} {moments : List (List R)} {pages : List (Page R K)}

/-- What a walk returns was there. -/
theorem Walk.mem (h : Walk key mark fetch limit P cursor moments pages)
    (hr : r ∈ pages.flatMap (·.rows)) : ∃ rows ∈ moments, r ∈ rows := by
  have hpage : ∀ {cursor : Option K} {rows : List R},
      r ∈ (page key mark fetch limit cursor rows).rows → r ∈ rows := fun hr =>
    (mem_remaining.mp (List.mem_of_mem_take (List.mem_of_mem_take hr))).1
  induction h with
  | done _ _ =>
    rw [List.flatMap_cons, List.flatMap_nil, List.append_nil] at hr
    exact ⟨_, List.mem_cons_self, hpage hr⟩
  | more _ _ _ ih =>
    rw [List.flatMap_cons] at hr
    rcases List.mem_append.mp hr with hr | hr
    · exact ⟨_, List.mem_cons_self, hpage hr⟩
    · obtain ⟨rows, hrows, hmem⟩ := ih hr
      exact ⟨rows, List.mem_cons_of_mem _ hrows, hmem⟩

/-- **A walk is in order**, and names no row twice, whatever the rows do meanwhile. -/
theorem Walk.descending (hmark : ∀ k, mark k ≤ k) (hfetch : limit ≤ fetch)
    (h : Walk key mark fetch limit P cursor moments pages)
    (hnodup : ∀ rows ∈ moments, (rows.map key).Nodup) :
    (∀ r ∈ pages.flatMap (·.rows), ∀ c ∈ cursor, key r < c) ∧
      (pages.flatMap (·.rows)).Pairwise fun a b => key b < key a := by
  -- Within a page the rows are in order, and below the cursor.
  have hpage : ∀ (cursor : Option K) (rows : List R), (rows.map key).Nodup →
      (∀ r ∈ (page key mark fetch limit cursor rows).rows, ∀ c ∈ cursor, key r < c) ∧
        (page key mark fetch limit cursor rows).rows.Pairwise fun a b => key b < key a := by
    intro cursor rows hrows
    rw [page_rows hfetch]
    constructor
    · intro r hr
      exact (mem_remaining.mp (List.mem_of_mem_take hr)).2
    · exact (remaining_pairwise hrows).sublist (List.take_sublist _ _)
  induction h with
  | @done cursor rows _ _ =>
    rw [List.flatMap_cons, List.flatMap_nil, List.append_nil]
    exact hpage cursor rows (hnodup rows List.mem_cons_self)
  | @more cursor rows next moments pages _ hnext _ ih =>
    obtain ⟨hbelow, hsorted⟩ := hpage cursor rows (hnodup rows List.mem_cons_self)
    obtain ⟨hafter, hrest⟩ := ih fun rows' hr => hnodup rows' (List.mem_cons_of_mem _ hr)
    obtain ⟨-, l, hl, rfl⟩ := page_next hnext
    -- The next page starts below the last row of this one.
    have hfirst : ∀ a ∈ (page key mark fetch limit cursor rows).rows, key l ≤ key a :=
      fun a ha => le_of_mem_page hfetch (hnodup rows List.mem_cons_self) hl ha
    have hnext_below : ∀ b ∈ pages.flatMap (·.rows), key b < key l := fun b hb =>
      lt_of_lt_of_le (hafter b hb _ rfl) (hmark (key l))
    rw [List.flatMap_cons]
    constructor
    · intro r hr c hc
      rcases List.mem_append.mp hr with hr | hr
      · exact hbelow r hr c hc
      · exact (hnext_below r hr).trans (hbelow l (List.mem_of_getLast? hl) c hc)
    · refine List.pairwise_append.mpr ⟨hsorted, hrest, fun a ha b hb => ?_⟩
      exact lt_of_lt_of_le (hnext_below b hb) (hfirst a ha)

/-- **A walk misses nothing that is there all along**, where every page cuts cleanly for
its key. -/
theorem Walk.complete {S : K → Prop} {T : R → Prop} {k : K} (hpos : 0 < limit)
    (hfetch : limit ≤ fetch)
    (hcuts : ∀ cursor rows, P cursor rows → CutsFor key mark fetch limit cursor rows S)
    (hk : S k) (hkey : ∀ r, T r → key r = k)
    (h : Walk key mark fetch limit P cursor moments pages)
    (hr : ∀ rows ∈ moments, ∃ r ∈ rows, T r) (hcursor : ∀ c ∈ cursor, k < c) :
    ∃ r ∈ pages.flatMap (·.rows), T r := by
  have hremains : ∀ {cursor : Option K} {rows : List R}, (∃ r ∈ rows, T r) →
      (∀ c ∈ cursor, k < c) → ∃ r ∈ remaining key cursor rows, T r := by
    rintro cursor rows ⟨r, hmem, hT⟩ hcursor
    exact ⟨r, mem_remaining.mpr ⟨hmem, fun c hc => hkey r hT ▸ hcursor c hc⟩, hT⟩
  induction h with
  | @done cursor rows hp hnone =>
    have hall := ((page_cuts hpos hfetch (hcuts cursor rows hp)).1).mp hnone
    rw [List.flatMap_cons, List.flatMap_nil, List.append_nil, page_rows hfetch,
      List.take_of_length_le hall]
    exact hremains (hr rows List.mem_cons_self) hcursor
  | @more cursor rows next moments pages hp hnext _ ih =>
    obtain ⟨r, hmem, hT⟩ := hremains (hr rows List.mem_cons_self) hcursor
    rw [← List.take_append_drop limit (remaining key cursor rows)] at hmem
    rw [List.flatMap_cons]
    rcases List.mem_append.mp hmem with hmem | hmem
    · rw [page_rows hfetch]
      exact ⟨r, List.mem_append_left _ hmem, hT⟩
    · have hbelow := (page_cuts hpos hfetch (hcuts cursor rows hp)).2 next hnext r hmem
        ((hkey r hT).symm ▸ hk)
      rw [hkey r hT] at hbelow
      obtain ⟨r', hr', hT'⟩ := ih (fun rows' h' => hr rows' (List.mem_cons_of_mem _ h'))
        (fun c hc => Option.some.inj hc ▸ hbelow)
      exact ⟨r', List.mem_append_right _ hr', hT'⟩

/-- **A walk that misses none of the keys in `S`**, and ends where nothing is left, cuts
cleanly for them at every page. -/
theorem Walk.cuts_of_complete {S : K → Prop} (hmark : ∀ k, mark k ≤ k) (hfetch : limit ≤ fetch)
    (h : Walk key mark fetch limit (fun cursor rows =>
      (page key mark fetch limit cursor rows).next = none ↔
        (remaining key cursor rows).length ≤ limit) cursor moments pages)
    (hnodup : ∀ rows ∈ moments, (rows.map key).Nodup)
    (hall : ∀ k, S k → (∀ c ∈ cursor, k < c) → k ∈ (pages.flatMap (·.rows)).map key) :
    Walk key mark fetch limit (fun cursor rows => CutsFor key mark fetch limit cursor rows S)
      cursor moments pages := by
  induction h with
  | done hlast hnone => exact .done (.inl (hlast.mp hnone)) hnone
  | @more cursor rows next moments pages hlast hnext hrest ih =>
    have hrows := hnodup rows List.mem_cons_self
    have hnodup' : ∀ rows ∈ moments, (rows.map key).Nodup :=
      fun rows' h' => hnodup rows' (List.mem_cons_of_mem _ h')
    obtain ⟨-, l, hl, rfl⟩ := page_next hnext
    have hbelow := (hrest.descending hmark hfetch hnodup').1
    -- A key below the last row of this page is on a later one.
    have hlater : ∀ k, k < key l → k ∈ ((page key mark fetch limit cursor rows ::
        pages).flatMap (·.rows)).map key → k ∈ (pages.flatMap (·.rows)).map key := by
      intro k hk hmem
      rw [List.flatMap_cons, List.map_append] at hmem
      refine (List.mem_append.mp hmem).resolve_left fun hmem => ?_
      obtain ⟨a, ha, rfl⟩ := List.mem_map.mp hmem
      exact absurd (le_of_mem_page hfetch hrows hl ha) (not_le_of_gt hk)
    rw [page_rows hfetch] at hl
    have hmem := List.mem_of_getLast? hl
    have hcursor := (mem_remaining.mp (List.mem_of_mem_take hmem)).2
    refine .more (.inr ⟨fetch_of_next hnext, fun l' hl' r hr hS => ?_⟩) hnext
      (ih hnodup' fun k hS hk => ?_)
    · obtain rfl := Option.some.inj (hl.symm.trans (Option.mem_def.mp hl'))
      -- What is left after the page is below its last row.
      have hafter : key r < key l := by
        have hsorted : (remaining key cursor rows).Pairwise fun a b => key b < key a :=
          remaining_pairwise hrows
        rw [← List.take_append_drop limit (remaining key cursor rows)] at hsorted
        exact (List.pairwise_append.mp hsorted).2.2 l hmem r hr
      obtain ⟨r', hr', heq⟩ := List.mem_map.mp (hlater (key r) hafter
        (hall (key r) hS fun c hc => hafter.trans (hcursor c hc)))
      exact heq ▸ hbelow r' hr' _ rfl
    · have hlt : k < key l := lt_of_lt_of_le (hk _ rfl) (hmark (key l))
      exact hlater k hlt (hall k hS fun c hc => hlt.trans (hcursor c hc))

end Walks
end Keyset
