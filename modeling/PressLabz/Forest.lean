import Mathlib.Data.List.Nodup

/-! # Forests of bounded depth, as parent pointers

Nodes that each name at most one parent: `up id` is `none` where there is no
such node, `some none` at a root, and `some (some p)` below `p`.  Nothing in
such a map says that it is a forest, nor that a parent exists.  What says so is
a path: `Path up id l` when climbing from `id` visits exactly the nodes of `l`
and ends at a root.  `Bounded n` gives every node a path of at most `n` nodes,
which leaves no room for a circle (`Path.nodup`).

The last two sections are the changes a forest survives.  Cutting nodes loose
and removing nodes only shortens paths (`Loosens`).  Hanging a node, with all
that is under it, below another keeps the bound when the two heights fit
(`Bounded.hang`); the same lemma covers a node that is new.  Neither makes
anything taller outside the path it was hung under (`Under.of_hang`), which is
what somebody who counts a height without watching the whole forest relies on.
-/
namespace Forest

/-- What each node says of its parent. -/
abbrev Parents (I : Type) := I → Option (Option I)

variable {I : Type} {up up' : Parents I} {a b id p x : I} {l l' : List I} {d n : Nat}

/-- Climbing from a node visits these nodes, itself first, and ends at a root. -/
inductive Path (up : Parents I) : I → List I → Prop
  | root {id : I} : up id = some none → Path up id [id]
  | step {id p : I} {l : List I} : up id = some (some p) → Path up p l → Path up id (id :: l)

/-- Climbing `d` times from a node arrives at `a`. -/
inductive Under (up : Parents I) (a : I) : Nat → I → Prop
  | here : Under up a 0 a
  | step {d : Nat} {id p : I} : up id = some (some p) → Under up a d p → Under up a (d + 1) id

/-- Every node has a path to a root, of at most `n` nodes. -/
def Bounded (up : Parents I) (n : Nat) : Prop :=
  ∀ id, up id ≠ none → ∃ l, Path up id l ∧ l.length ≤ n

/-! ## Paths -/

theorem Path.mem_self (h : Path up id l) : id ∈ l := by
  cases h with
  | root _ => exact List.mem_singleton_self id
  | step _ _ => exact List.mem_cons_self

theorem Path.present (h : Path up id l) (hx : x ∈ l) : up x ≠ none := by
  induction h with
  | root hid =>
    obtain rfl := List.mem_singleton.mp hx
    simp [hid]
  | step hid _ ih =>
    rcases List.mem_cons.mp hx with rfl | hx
    · simp [hid]
    · exact ih hx

theorem Path.unique (h : Path up id l) (h' : Path up id l') : l = l' := by
  induction h generalizing l' with
  | root hid =>
    cases h' with
    | root _ => rfl
    | step hid' _ => rw [hid] at hid'; cases hid'
  | step hid _ ih =>
    cases h' with
    | root hid' => rw [hid] at hid'; cases hid'
    | step hid' hp =>
      rw [hid] at hid'
      obtain rfl := Option.some.inj (Option.some.inj hid')
      rw [ih hp]

/-- Whoever is on a path has the rest of it. -/
theorem Path.exists_of_mem (h : Path up id l) (hx : x ∈ l) :
    ∃ l', Path up x l' ∧ l'.length ≤ l.length ∧ (x ≠ id → l'.length < l.length) := by
  induction h with
  | root hid =>
    obtain rfl := List.mem_singleton.mp hx
    exact ⟨_, .root hid, Nat.le_refl _, fun hne => absurd rfl hne⟩
  | @step id p l hid hp ih =>
    by_cases hxid : x = id
    · subst x
      exact ⟨_, .step hid hp, Nat.le_refl _, fun hne => absurd rfl hne⟩
    · obtain ⟨l', h', hle, -⟩ := ih ((List.mem_cons.mp hx).resolve_left hxid)
      exact ⟨l', h', Nat.le_succ_of_le hle, fun _ => Nat.lt_succ_of_le hle⟩

/-- **A path never comes back to a node.** -/
theorem Path.nodup (h : Path up id l) : l.Nodup := by
  induction h with
  | root _ => exact List.nodup_singleton _
  | @step id p l hid hp ih =>
    refine List.nodup_cons.mpr ⟨fun hmem => ?_, ih⟩
    obtain ⟨l', h', hle, -⟩ := hp.exists_of_mem hmem
    have hlen := congrArg List.length (h'.unique (.step hid hp))
    rw [List.length_cons] at hlen
    omega

theorem Path.congr (h : Path up id l) (hsame : ∀ x ∈ l, up' x = up x) : Path up' id l := by
  induction h with
  | root hid => exact .root ((hsame _ List.mem_cons_self).trans hid)
  | step hid _ ih =>
    exact .step ((hsame _ List.mem_cons_self).trans hid)
      (ih fun x hx => hsame x (List.mem_cons_of_mem _ hx))

/-- Climbing stays on the path. -/
theorem Under.mem_path (h : Under up a d id) (hp : Path up id l) : a ∈ l := by
  induction h generalizing l with
  | here => exact hp.mem_self
  | step hid _ ih =>
    cases hp with
    | root hid' => rw [hid] at hid'; cases hid'
    | step hid' hp' =>
      rw [hid] at hid'
      obtain rfl := Option.some.inj (Option.some.inj hid')
      exact List.mem_cons_of_mem _ (ih hp')

/-- A node on the path is some number of climbs away. -/
theorem Path.under (h : Path up id l) (ha : a ∈ l) : ∃ d, Under up a d id ∧ d < l.length := by
  induction h with
  | root _ =>
    obtain rfl := List.mem_singleton.mp ha
    exact ⟨0, .here, Nat.one_pos⟩
  | step hid _ ih =>
    rcases List.mem_cons.mp ha with rfl | ha
    · exact ⟨0, .here, Nat.succ_pos _⟩
    · obtain ⟨d, hd, hlt⟩ := ih ha
      exact ⟨d + 1, .step hid hd, Nat.succ_lt_succ hlt⟩

/-- What is on the path of a node is the node or above it. -/
theorem Path.above (h : Path up id l) (hx : x ∈ l) : x = id ∨ ∃ d, Under up x (d + 1) id := by
  obtain ⟨d, hd, -⟩ := h.under hx
  cases d with
  | zero =>
    cases hd
    exact .inl rfl
  | succ d => exact .inr ⟨d, hd⟩

/-- No node is above itself. -/
theorem Under.ne (h : Under up a (d + 1) id) (hp : Path up id l) : a ≠ id := by
  cases h with
  | step hid hu =>
    cases hp with
    | root hid' => rw [hid] at hid'; cases hid'
    | step hid' hp' =>
      rw [hid] at hid'
      obtain rfl := Option.some.inj (Option.some.inj hid')
      rintro rfl
      exact (List.nodup_cons.mp (Path.step hid hp').nodup).1 (hu.mem_path hp')

theorem Path.head (h : Path up id l) : ∃ rest, l = id :: rest := by
  cases h with
  | root _ => exact ⟨[], rfl⟩
  | step _ _ => exact ⟨_, rfl⟩

/-- Two forests agree along a path they share. -/
theorem Path.agree (h : Path up id l) (h' : Path up' id l) (hx : x ∈ l) : up' x = up x := by
  induction h with
  | root hid =>
    obtain rfl := List.mem_singleton.mp hx
    cases h' with
    | root hid' => rw [hid, hid']
    | step _ hp' => cases hp'
  | step hid hp ih =>
    cases h' with
    | root _ => cases hp
    | step hid' hp' =>
      obtain ⟨rest, rfl⟩ := hp.head
      obtain ⟨rest', heq⟩ := hp'.head
      obtain ⟨rfl, -⟩ := List.cons.inj heq
      rcases List.mem_cons.mp hx with rfl | hx
      · rw [hid, hid']
      · exact ih hp' hx

/-- Whoever is `d` climbs away passes, on the way, a node for each smaller number of climbs. -/
theorem Under.exists_lt (h : Under up a d id) {k : Nat} (hk : k ≤ d) : ∃ x, Under up a k x := by
  induction h with
  | here =>
    obtain rfl := Nat.le_zero.mp hk
    exact ⟨a, .here⟩
  | @step d id p hid hp ih =>
    by_cases hkd : k ≤ d
    · exact ih hkd
    · obtain rfl : k = d + 1 := by omega
      exact ⟨id, .step hid hp⟩

/-- Whatever is above a node that is above `a` is above `a`. -/
theorem Under.above (h : Under up a d id) (ha : up a = some (some p)) : Under up p (d + 1) id := by
  induction h with
  | here => exact .step ha .here
  | step hid _ ih => exact .step hid ih

/-- Nodes that hang together by old edges only hung together before. -/
theorem Under.of_edges (hedge : ∀ x p, up' x = some (some p) → up x = some (some p))
    (h : Under up' a d id) : Under up a d id := by
  induction h with
  | here => exact .here
  | step hid _ ih => exact .step (hedge _ _ hid) ih

/-- A node further up has a child on the way. -/
theorem Under.exists_child (h : Under up a (d + 1) x) :
    ∃ c, up c = some (some a) ∧ Under up c d x := by
  induction d generalizing x with
  | zero =>
    cases h with
    | step hx hp =>
      cases hp
      exact ⟨x, hx, .here⟩
  | succ d ih =>
    cases h with
    | step hx hp =>
      obtain ⟨c, hc, hu⟩ := ih hp
      exact ⟨c, hc, .step hx hu⟩

/-- A node that is added as a root keeps the bound. -/
theorem Bounded.root (h : Bounded up n) (hn : 0 < n) (hnew : up a = none)
    (ha : up' a = some none) (hsame : ∀ x, x ≠ a → up' x = up x) : Bounded up' n := by
  intro id hid
  by_cases hida : id = a
  · subst id
    exact ⟨[a], .root ha, hn⟩
  · obtain ⟨l, hp, hle⟩ := h id (hsame id hida ▸ hid)
    refine ⟨l, hp.congr fun x hx => hsame x ?_, hle⟩
    rintro rfl
    exact hp.present hx hnew

/-! ## Cutting loose -/

/-- One forest is cut loose from another: some nodes are roots now, and some are gone, with
nobody left below them. -/
structure Loosens (up up' : Parents I) : Prop where
  present : ∀ id, up' id ≠ none → up id ≠ none
  below : ∀ id p, up' id = some (some p) → up id = some (some p) ∧ up' p ≠ none

theorem Loosens.under (hl : Loosens up up') (h : Under up' a d id) : Under up a d id :=
  h.of_edges fun x p hx => (hl.below x p hx).1

theorem Loosens.path (hl : Loosens up up') (h : Path up id l) (hid : up' id ≠ none) :
    ∃ l', Path up' id l' ∧ l'.length ≤ l.length := by
  induction h with
  | @root id hroot =>
    match hu : up' id with
    | none => exact absurd hu hid
    | some none => exact ⟨[id], .root hu, Nat.le_refl _⟩
    | some (some p) =>
      have := (hl.below id p hu).1
      rw [hroot] at this
      cases this
  | @step id p l hp _ ih =>
    match hu : up' id with
    | none => exact absurd hu hid
    | some none => exact ⟨[id], .root hu, Nat.succ_le_succ (Nat.zero_le _)⟩
    | some (some p') =>
      obtain ⟨hsame, hpres⟩ := hl.below id p' hu
      rw [hp] at hsame
      obtain rfl := Option.some.inj (Option.some.inj hsame)
      obtain ⟨l', h', hle⟩ := ih hpres
      exact ⟨id :: l', .step hu h', Nat.succ_le_succ hle⟩

/-- Cutting loose keeps every bound. -/
theorem Bounded.loosen (h : Bounded up n) (hl : Loosens up up') : Bounded up' n := by
  intro id hid
  obtain ⟨l, hp, hle⟩ := h id (hl.present id hid)
  obtain ⟨l', h', hle'⟩ := hl.path hp hid
  exact ⟨l', h', Nat.le_trans hle' hle⟩

/-! ## Hanging a node below another -/

section Hang
variable [DecidableEq I] (ha : up' a = some (some b)) (hsame : ∀ x, x ≠ a → up' x = up x)
include ha hsame

omit [DecidableEq I] in
/-- Nobody but the nodes above gets anything new under it. -/
theorem Under.of_hang (hb : Path up b l) (hx : x ∉ l) (h : Under up' x d id) :
    Under up x d id := by
  induction h with
  | here => exact .here
  | @step d id p hid _ ih =>
    by_cases hida : id = a
    · subst id
      obtain rfl := Option.some.inj (Option.some.inj (ha.symm.trans hid))
      exact absurd (ih.mem_path hb) hx
    · exact .step ((hsame id hida).symm.trans hid) ih

/-- The path of a node once `a` hangs below `b`: through `a`, or as it was. -/
theorem Path.hang (hb : Path up b l) (hab : a ∉ l) {m : List I} (h : Path up id m) :
    (a ∉ m ∧ Path up' id m) ∨
      ∃ d m', Under up a d id ∧ Path up' id m' ∧ m'.length = d + 1 + l.length := by
  have hb' : Path up' b l := hb.congr fun x hx => hsame x fun h => hab (h ▸ hx)
  induction h with
  | @root id hid =>
    by_cases hida : id = a
    · subst id
      exact .inr ⟨0, a :: l, .here, .step ha hb', by simp [Nat.add_comm]⟩
    · exact .inl ⟨by simpa using Ne.symm hida, .root ((hsame id hida).trans hid)⟩
  | @step id p m hid _ ih =>
    by_cases hida : id = a
    · subst id
      exact .inr ⟨0, a :: l, .here, .step ha hb', by simp [Nat.add_comm]⟩
    · rcases ih with ⟨hnot, hp⟩ | ⟨d, m', hd, hp, hlen⟩
      · exact .inl ⟨by simp [Ne.symm hida, hnot], .step ((hsame id hida).trans hid) hp⟩
      · refine .inr ⟨d + 1, id :: m', .step hid hd, .step ((hsame id hida).trans hid) hp, ?_⟩
        rw [List.length_cons, hlen]
        omega

/-- **Hanging `a` below `b` keeps the bound**, when the height of what hangs at
`a` and the depth of `b` fit in it together. -/
theorem Bounded.hang (h : Bounded up n) (hb : Path up b l) (hab : a ∉ l)
    (hfit : ∀ d id, Under up a d id → d + 1 + l.length ≤ n) : Bounded up' n := by
  intro id hid
  by_cases hida : id = a
  · subst id
    refine ⟨a :: l, .step ha (hb.congr fun x hx => hsame x fun h => hab (h ▸ hx)), ?_⟩
    have := hfit 0 a .here
    rw [List.length_cons]
    omega
  · obtain ⟨m, hm, hle⟩ := h id (hsame id hida ▸ hid)
    rcases Path.hang ha hsame hb hab hm with ⟨-, hm'⟩ | ⟨d, m', hd, hm', hlen⟩
    · exact ⟨m, hm', hle⟩
    · exact ⟨m', hm', hlen ▸ hfit d id hd⟩

end Hang
end Forest
