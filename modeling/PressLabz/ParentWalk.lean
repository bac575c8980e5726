import PressLabz.ContentCommits

/-! # The walk up the ancestors

`assertUsableParent`, read statement by statement against the discipline of
`ContentCommits`.  The walk holds every ancestor of the new parent to the end of
the transaction, so the path it found is still there at the commit.  The height
of the document that moves is counted without locks; but nobody can put anything
new under that document without holding it, so the count can only be too high.
-/
namespace PressLabz
open Forest RowLocks

variable {before : RowKey → RowKey → Prop} {call : Call} {held : Set RowKey}
  {own : Database → Database} {db db' : Database} {β γ : Type}
  {Q : γ → Set RowKey → (Database → Database) → Database → Prop}

/-- Rely, guarantee and precondition of the discipline, with the order given. -/
abbrev RelyOn (before : RowKey → RowKey → Prop) := Rely (contentsDiscipline before)

/-- The weakest precondition under the discipline. -/
abbrev pre (before : RowKey → RowKey → Prop) (call : Call)
    (Q : γ → Set RowKey → (Database → Database) → Database → Prop) :=
  wp (E := ContentError) (contentsDiscipline before) engine call Q

/-- A row may be requested now: it comes after every row that is held. -/
def MayRequest (before : RowKey → RowKey → Prop) (held : Set RowKey) (k : RowKey) : Prop :=
  ∀ h ∈ held, h = k ∨ before h k

theorem Rely.doc (hr : RelyOn before call held db db') {id : Uuid} (hid : .doc id ∈ held)
    {r : ContentRow} (h : db.content id = some r) : FrameDoc id db db' := hr.frame _ hid ⟨r, h⟩

theorem Rely.group (hr : RelyOn before call held db db') {id : Uuid} (hid : .group id ∈ held)
    {g : TranslationGroupRow} (h : db.group id = some g) : FrameGroup id db db' :=
  hr.frame _ hid ⟨g, h⟩

/-- A transaction that reads a document `for update` must be right whether it is there or not. -/
theorem pre_lockDoc {id : Uuid} {f : Option ContentRow → Transaction γ}
    (hreq : MayRequest before held (.doc id))
    (hsome : ∀ db' r, RelyOn before call held db db' → (own db').content id = some r →
      pre before call Q (f (some r)) (insert (.doc id) held) own db')
    (hnone : ∀ db', RelyOn before call held db db' → (own db').content id = none →
      pre before call Q (f none) held own db') :
    pre before call Q (Tx.forUpdate (.doc id) (·.content id) >>= f) held own db := by
  refine wp_forUpdate hreq (fun db' hr hp => ?_) (fun db' hr hp => ?_)
  · obtain ⟨r, h⟩ := Option.isSome_iff_exists.mp hp
    rw [h]
    exact hsome db' r hr h
  · have h : (own db').content id = none := Option.isNone_iff_eq_none.mp
      (by simpa [engine, Database.present] using hp)
    rw [h]
    exact hnone db' hr h

/-! ## The parent -/

/-- What a walk from `current` visited: the whole path to the root. -/
def Visited (db : Database) (current : Option UuidText) (l : List Uuid) : Prop :=
  match current with
  | none => l = []
  | some t => Path db.parents t.uuid l

/-- The walk finds the whole path, holds it, and comes by the child only if the
first text spells it in a way the comparison does not see. -/
theorem pre_climb {check : ParentCheck} {f : Nat → Transaction γ}
    (hown : ∀ db, (own db).content = db.content) :
    ∀ (left depth : Nat) (current : Option UuidText) (held : Set RowKey) (db : Database),
    (∀ db', RelyOn before call held db db' →
      (∀ x ∈ check.route db' left current, MayRequest before held (.doc x)) ∧
      ((check.route db' left current).map RowKey.doc).Pairwise fun a b => a = b ∨ before a b) →
    (∀ held' db' l, held ⊆ held' → RelyOn before call held db db' → Visited db' current l →
      (∀ x ∈ l, .doc x ∈ held') →
      (∀ c, check.childId = some c → c ∈ l →
        ∃ t, current = some t ∧ t.uuid = c ∧ t ≠ Uuid.text c) →
      pre before call Q (f (depth + l.length)) held' own db') →
    ContentsInv db → (contentsDiscipline before).side call db →
    pre before call Q (climb check left depth current >>= f) held own db := by
  intro left
  induction left with
  | zero =>
    intro depth current held db _ hk hinv hside
    cases current with
    | none =>
      exact hk held db [] subset_rfl (.refl hinv hside) rfl (by simp) (by simp)
    | some t =>
      rw [climb]
      split
      · exact wp_throw
      · exact wp_throw
  | succ left ih =>
    intro depth current held db hroute hk hinv hside
    cases current with
    | none =>
      exact hk held db [] subset_rfl (.refl hinv hside) rfl (by simp) (by simp)
    | some t =>
      rw [climb]
      by_cases hchild : check.childId.map Uuid.text = some t
      · rw [if_pos hchild]
        exact wp_throw
      rw [if_neg hchild, Tx.bind_assoc]
      have hroute_cons : ∀ db, check.route db (left + 1) (some t) =
          t.uuid :: check.route db left
            (((db.content t.uuid).bind (·.parentId)).map Uuid.text) := by
        intro db
        rw [ParentCheck.route, if_neg hchild]
      refine pre_lockDoc ?_ (fun db1 ancestor hr1 hanc => ?_) (fun _ _ _ => wp_throw)
      · refine (hroute db (.refl hinv hside)).1 t.uuid ?_
        rw [hroute_cons]
        exact List.mem_cons_self
      · rw [hown] at hanc
        dsimp only
        split
        · exact wp_throw
        -- The ancestor is held now: its parent stays what it is.
        have hstay : ∀ db2, RelyOn before call (insert (.doc t.uuid) held) db1 db2 →
            db2.content t.uuid = some ancestor := fun db2 hr2 =>
          ((Rely.doc hr2 (Set.mem_insert _ _) hanc).content).trans hanc
        refine ih (depth + 1) _ _ db1 (fun db2 hr2 => ?_) (fun held' db2 l hsub hr2 hvis hl hc => ?_)
          hr1.inv hr1.side
        · have hr : RelyOn before call held db db2 :=
            hr1.trans (hr2.weaken (Set.subset_insert _ _))
          obtain ⟨hreq, hpair⟩ := hroute db2 hr
          rw [hroute_cons, hstay db2 hr2] at hreq hpair
          rw [List.map_cons, List.pairwise_cons] at hpair
          refine ⟨fun x hx h hh => ?_, hpair.2⟩
          rcases Set.mem_insert_iff.mp hh with rfl | hh
          · exact hpair.1 (.doc x) (List.mem_map_of_mem hx)
          · exact hreq x (List.mem_cons_of_mem _ hx) h hh
        · have hr : RelyOn before call held db db2 :=
            hr1.trans (hr2.weaken (Set.subset_insert _ _))
          have hnot : ∀ c, check.childId = some c → c ∉ l := by
            intro c hcc hcl
            obtain ⟨t', ht', huuid, hne⟩ := hc c hcc hcl
            obtain ⟨p, -, rfl⟩ := Option.map_eq_some_iff.mp ht'
            exact hne (congrArg Uuid.text huuid)
          have hvis' : Path db2.parents t.uuid (t.uuid :: l) := by
            have hup : db2.parents t.uuid = some ancestor.parentId :=
              Database.parents_eq_some.mpr ⟨ancestor, hstay db2 hr2, rfl⟩
            cases hp : ancestor.parentId with
            | none =>
              rw [hp] at hup hvis
              obtain rfl : l = [] := hvis
              exact .root hup
            | some p =>
              rw [hp] at hup hvis
              exact .step hup hvis
          have hlen : depth + 1 + l.length = depth + (t.uuid :: l).length := by
            rw [List.length_cons]
            omega
          rw [hlen]
          refine hk held' db2 (t.uuid :: l) ((Set.subset_insert _ _).trans hsub) hr hvis' ?_ ?_
          · intro x hx
            rcases List.mem_cons.mp hx with rfl | hx
            · exact hsub (Set.mem_insert _ _)
            · exact hl x hx
          · intro c hcc hcl
            rcases List.mem_cons.mp hcl with rfl | hcl
            · refine ⟨t, rfl, rfl, fun heq => hchild ?_⟩
              rw [hcc, Option.map_some, ← heq]
            · exact absurd hcl (hnot c hcc)

theorem le_deepest {db : Database} {levels d depth : Nat}
    {frontier : List Uuid} {a x : Uuid} (ha : a ∈ frontier) (h : Under db.parents a d x)
    (hd : d ≤ levels) : depth + d ≤ db.deepest levels frontier depth := by
  induction levels generalizing d depth frontier a x with
  | zero =>
    obtain rfl := Nat.le_zero.mp hd
    exact Nat.le_refl _
  | succ levels ih =>
    rw [Database.deepest]
    cases d with
    | zero =>
      split
      · exact Nat.le_refl _
      · rename_i hne
        obtain ⟨c, hcm⟩ := List.exists_mem_of_ne_nil _ hne
        have hle : depth + 1 + 0 ≤ db.deepest levels (frontier.flatMap db.childrenOf) (depth + 1) :=
          ih hcm .here (Nat.zero_le levels)
        omega
    | succ d =>
      obtain ⟨c, hup, hu⟩ := h.exists_child
      obtain ⟨r, hr, hrp⟩ := Database.parents_eq_some.mp hup
      have hcm : c ∈ frontier.flatMap db.childrenOf :=
        List.mem_flatMap.mpr ⟨a, ha, Database.mem_childrenOf.mpr
          ⟨r, Database.mem_of_content hr, hrp, Database.id_of_content hr⟩⟩
      rw [if_neg (List.ne_nil_of_mem hcm)]
      have hle : depth + 1 + d ≤ db.deepest levels (frontier.flatMap db.childrenOf) (depth + 1) :=
        ih hcm hu (Nat.le_of_succ_le_succ hd)
      omega

/-- A height that fits is the true height: `subtreeHeight` stops counting one
level past the limit. -/
theorem height_le {db : Database} {a x : Uuid} {d n : Nat}
    (hfit : n + db.subtreeHeight a ≤ MAX_HIERARCHY_DEPTH) (h : Under db.parents a d x) :
    d + 1 + n ≤ MAX_HIERARCHY_DEPTH := by
  by_cases hd : d ≤ MAX_HIERARCHY_DEPTH
  · have : 1 + d ≤ db.subtreeHeight a := le_deepest (List.mem_singleton_self a) h hd
    omega
  · obtain ⟨y, hy⟩ := h.exists_lt (Nat.le_of_not_le hd)
    have : 1 + MAX_HIERARCHY_DEPTH ≤ db.subtreeHeight a :=
      le_deepest (List.mem_singleton_self a) hy (Nat.le_refl _)
    omega

/-- What a check that passes has established, and holds: the path of the parent,
and that everything under the child fits below it. -/
structure Usable (held : Set RowKey) (db : Database) (childId : Option Uuid) (parentId : Uuid)
    (l : List Uuid) : Prop where
  path : Path db.parents parentId l
  held : ∀ x ∈ l, RowKey.doc x ∈ held
  fits : l.length + 1 ≤ MAX_HIERARCHY_DEPTH
  under : ∀ c, childId = some c → ∀ d x, Under db.parents c d x →
    d + 1 + l.length ≤ MAX_HIERARCHY_DEPTH
  free : ∀ c, childId = some c → c ∈ l → parentId = c

/-- A parent that is usable stays so while the rows are held. -/
theorem Usable.later {childId : Option Uuid} {parentId : Uuid} {l : List Uuid}
    (h : Usable held db childId parentId l) (hr : RelyOn before call held db db')
    (hchild : ∀ c, childId = some c → RowKey.doc c ∈ held ∧ ∃ r, db.content c = some r) :
    Usable held db' childId parentId l where
  path := h.path.congr fun x hx => by
    obtain ⟨r, hc⟩ := Database.parents_ne_none.mp (h.path.present hx)
    rw [Database.parents, Database.parents, (Rely.doc hr (h.held x hx) hc).content]
  held := h.held
  fits := h.fits
  under c hc d x hx := by
    obtain ⟨hheld, r, hcr⟩ := hchild c hc
    exact h.under c hc d x ((Rely.doc hr hheld hcr).under d x hx)
  free := h.free

theorem pre_assertUsableParent {check : ParentCheck} {f : Unit → Transaction γ}
    (hown : ∀ db, (own db).content = db.content)
    (hroute : ∀ db', RelyOn before call held db db' →
      (∀ x ∈ check.ancestors db', MayRequest before held (.doc x)) ∧
      ((check.ancestors db').map RowKey.doc).Pairwise fun a b => a = b ∨ before a b)
    (hk : ∀ held' db' l, held ⊆ held' → RelyOn before call held db db' →
      Usable held' db' check.childId check.parentId.uuid l →
      pre before call Q (f ()) held' own db')
    (hinv : ContentsInv db) (hside : (contentsDiscipline before).side call db) :
    pre before call Q (assertUsableParent check >>= f) held own db := by
  rw [assertUsableParent, Tx.bind_assoc]
  refine pre_climb hown _ 0 _ held db hroute (fun held' db' l hsub hr hvis hl hc => ?_) hinv hside
  have hfree : ∀ c, check.childId = some c → c ∈ l → check.parentId.uuid = c := by
    intro c hcc hcl
    obtain ⟨t, ht, huuid, -⟩ := hc c hcc hcl
    exact Option.some.inj ht ▸ huuid
  have hvis : Path db'.parents check.parentId.uuid l := hvis
  have hparents : ∀ db, (own db).parents = db.parents := fun db =>
    Database.parents_congr (hown db)
  rw [Nat.zero_add]
  rw [Tx.bind_assoc]
  cases hchild : check.childId with
  | none =>
    rw [ParentCheck.height, hchild, Tx.pure_bind]
    by_cases hfit : l.length + 1 > MAX_HIERARCHY_DEPTH
    · rw [if_pos hfit]
      exact wp_throw_bind
    · rw [if_neg hfit, Tx.pure_bind]
      exact hk held' db' l hsub hr
        ⟨hvis, hl, Nat.le_of_not_lt hfit, by simp [hchild], hfree⟩
  | some childId =>
    rw [ParentCheck.height, hchild]
    refine wp_select fun db2 hr2 => ?_
    by_cases hfit : l.length + (own db2).subtreeHeight childId > MAX_HIERARCHY_DEPTH
    · rw [if_pos hfit]
      exact wp_throw_bind
    · rw [if_neg hfit, Tx.pure_bind]
      have hfit := Nat.le_of_not_lt hfit
      have hheight : ∀ d x, Under db2.parents childId d x →
          d + 1 + l.length ≤ MAX_HIERARCHY_DEPTH := fun d x hx =>
        height_le hfit (hparents db2 ▸ hx)
      -- the rows of the path are locked, so that it is the same when the height is read
      have hpath : Path db2.parents check.parentId.uuid l := hvis.congr fun x hx => by
        obtain ⟨r, hc⟩ := Database.parents_ne_none.mp (hvis.present hx)
        rw [Database.parents, Database.parents, (Rely.doc hr2 (hl x hx) hc).content]
      refine hk held' db2 l hsub (hr.trans (hr2.weaken hsub)) ⟨hpath, hl, ?_, ?_, hfree⟩
      · have := hheight 0 childId .here
        omega
      · intro c hcc
        rw [hchild] at hcc
        obtain rfl := Option.some.inj hcc
        exact hheight

end PressLabz
