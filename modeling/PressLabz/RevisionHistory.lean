import PressLabz.VersionHistory

/-! # The history that is kept

`insertContentRevision`, `pruneRevisions` and `listRevisions`: what a commit makes of the
revisions of one document (`HistoryChange`), and which of them are there in the end.

A prune keeps the fifty revisions that the transactions with the latest starts wrote, and
a transaction that waited for the row may have started before all of them.  So the history
of a document is its newest fifty versions exactly in the runs where no prune finds a
retained version with an earlier start than the oldest one (`history_newest_iff`).
-/
namespace PressLabz
open RowLocks

/-- What the database and the clock supply to a call that supersedes documents. -/
def Call.stamps : Call → Option Stamps
  | .updateContent _ _ _ _ stamps | .publishDueContent _ stamps => some stamps
  | .createContent .. | .deleteContent .. => none

/-- What a commit does to the history of one document. -/
inductive HistoryChange (call : Call) (found left : Database) (j : Uuid) : Prop
  | kept (revisions : left.revisionsOf j = found.revisionsOf j)
      (version : ∀ r', left.content j = some r' →
        ∃ r, found.content j = some r ∧ r'.version = r.version)
  | created (revisions : left.revisionsOf j = found.revisionsOf j)
      (before : found.content j = none) (version : ∀ r', left.content j = some r' → r'.version = 1)
  | superseded (current next : ContentRow) (stamps : Stamps) (hcall : call.stamps = some stamps)
      (before : found.content j = some current) (after : left.content j = some next)
      (version : next.version = current.version + 1)
      (revisions : left.revisionsOf j =
        Database.pruned (current.revision stamps :: found.revisionsOf j))
  | deleted (after : left.content j = none) (revisions : left.revisionsOf j = [])

section Commit
variable {found left : Database} {call : Call} {answer : List ContentRow} {j : Uuid}

theorem HistoryChange.same (hcontent : left.content j = found.content j)
    (hrevisions : left.revisionsOf j = found.revisionsOf j) : HistoryChange call found left j :=
  .kept hrevisions fun r' hr' => ⟨r', hcontent ▸ hr', rfl⟩

/-- **A committed call** changes the history of each document in one of these ways. -/
theorem Post.history (h : Post call answer found left) (j : Uuid) :
    HistoryChange call found left j := by
  cases call with
  | createContent input fresh =>
    obtain ⟨-, hnew, -, rfl⟩ := h
    by_cases hj : j = fresh.id
    · subst hj
      refine .created revisionsOf_created hnew fun r' hr' => ?_
      rw [content_created, if_pos rfl] at hr'
      exact Option.some.inj hr' ▸ rfl
    · exact .same (content_created_of_ne hj) revisionsOf_created
  | updateContent type docId patch options stamps =>
    rcases h with ⟨-, rfl⟩ | ⟨current, next, hcur, -, -, rfl⟩
    · exact .same rfl rfl
    · obtain rfl : current.id = docId := Database.id_of_content hcur
      by_cases hj : j = current.id
      · subst hj
        exact .superseded current _ stamps rfl hcur (content_updated hcur) rfl
          (revisionsOf_superseded (w := next.write current stamps))
      · exact .same (content_updated_of_ne hj)
          (revisionsOf_superseded_of_ne (w := next.write current stamps) hj)
  | deleteContent docId authorize =>
    rcases h with ⟨-, rfl⟩ | ⟨current, hcur, -, -, rfl⟩
    · exact .same rfl rfl
    · obtain rfl : current.id = docId := Database.id_of_content hcur
      have hcontent : (found.removed current).content j = _ := content_removed
      rw [content_withoutDocument] at hcontent
      have hrevisions : (found.removed current).revisionsOf j = _ :=
        rest_removed (·.revisionsOf j) fun _ _ => rfl
      by_cases hj : j = current.id
      · subst hj
        rw [if_pos rfl] at hcontent
        refine .deleted hcontent (hrevisions.trans ?_)
        simp [Database.withoutDocument, Database.deleteContent, Database.revisionsOf]
      · rw [if_neg hj] at hcontent
        refine .kept (hrevisions.trans (Database.revisionsOf_deleteContent_of_ne hj))
          fun r' hr' => ?_
        obtain ⟨r, hr, hput⟩ := Option.map_eq_some_iff.mp (hcontent.symm.trans hr')
        refine ⟨r, hr, ?_⟩
        split at hput
        · exact hput ▸ rfl
        · exact hput ▸ rfl
  | publishDueContent now stamps =>
    obtain ⟨claimed, hnodup, hrows, -, rfl⟩ := h
    have hrow : ∀ r ∈ claimed, found.content r.id = some r := fun r hr => (hrows r hr).1
    -- a document is claimed by the pass, or is none of its business
    by_cases hj : ∃ r ∈ claimed, r.id = j
    · obtain ⟨r, hr, rfl⟩ := hj
      exact .superseded r _ stamps rfl (hrow r hr) (publishEach_written stamps hnodup hrow hr).1 rfl
        (revisionsOf_publishEach stamps hnodup hrow hr)
    · obtain ⟨-, -, hdocs, -⟩ := publishEach_frame stamps hnodup hrow
      have hframe := hdocs j fun r hr heq => hj ⟨r, hr, heq⟩
      exact .same hframe.content hframe.revisions

end Commit
/-! ## What a prune keeps -/

/-- `listRevisions`: newest first, by version. -/
def Database.listRevisions (db : Database) (contentId : Uuid) (limit : Nat) :
    List ContentRevisionRow :=
  ((db.revisionsOf contentId).insertionSort (·.version ≥ ·.version)).take
    (min REVISION_LIMIT (max 1 limit))

/-- The versions a document at version `n` has superseded, newest first, as many as are
kept: `n - 1`, `n - 2`, …. -/
def supersededVersions (n : Nat) : List Nat :=
  (List.range (min REVISION_LIMIT (n - 1))).map fun i => n - 1 - i

theorem cons_countdown (n k : Nat) :
    n :: (List.range k).map (fun i => n - 1 - i) = (List.range (k + 1)).map fun i => n - i := by
  rw [List.range_succ_eq_map, List.map_cons, List.map_map]
  refine congrArg _ (List.map_congr_left fun i _ => ?_)
  simp only [Function.comp]
  omega

/-- With room for one more, the version that is superseded next comes first. -/
theorem supersededVersions_room {n : Nat} (hn : 1 ≤ n) (hroom : n - 1 < REVISION_LIMIT) :
    supersededVersions (n + 1) = n :: supersededVersions n := by
  rw [supersededVersions, supersededVersions, cons_countdown, Nat.add_sub_cancel,
    Nat.min_eq_right (by omega), Nat.min_eq_right (by omega), Nat.sub_add_cancel hn]

/-- Without room for another, the oldest version goes as the next one is superseded. -/
theorem supersededVersions_full {n : Nat} (hfull : REVISION_LIMIT ≤ n - 1) :
    n :: supersededVersions n = supersededVersions (n + 1) ++ [n - REVISION_LIMIT] := by
  rw [supersededVersions, supersededVersions, cons_countdown, Nat.add_sub_cancel,
    Nat.min_eq_left hfull, Nat.min_eq_left (by omega), List.range_succ, List.map_append,
    List.map_singleton]

theorem supersededVersions_sorted (n : Nat) : (supersededVersions n).Pairwise (· > ·) := by
  refine List.pairwise_map.mpr (List.pairwise_lt_range.imp_of_mem fun {a b} _ hb hlt => ?_)
  have hb := List.mem_range.mp hb
  omega

theorem mem_supersededVersions {n v : Nat} :
    v ∈ supersededVersions n ↔ 1 ≤ v ∧ v < n ∧ n ≤ v + REVISION_LIMIT := by
  simp only [supersededVersions, List.mem_map, List.mem_range]
  constructor
  · rintro ⟨i, hi, rfl⟩
    omega
  · rintro ⟨h1, h2, h3⟩
    exact ⟨n - 1 - v, by omega, by omega⟩

instance : Std.Total fun a b : ContentRevisionRow => Database.newerRevision a b = true where
  total a b := by
    simp only [Database.newerRevision]
    split <;> split <;> simp <;> omega

instance : IsTrans ContentRevisionRow fun a b => Database.newerRevision a b = true where
  trans a b c hab hbc := by
    simp only [Database.newerRevision] at hab hbc ⊢
    split at hab <;> split at hbc <;> split <;> simp_all <;> omega

section Pruning
variable {revisions : List ContentRevisionRow}

/-- The order of a prune, newest first. -/
def byStart (revisions : List ContentRevisionRow) : List ContentRevisionRow :=
  revisions.insertionSort (Database.newerRevision · ·)

theorem byStart_perm (revisions : List ContentRevisionRow) : (byStart revisions).Perm revisions :=
  List.perm_insertionSort _ _

/-- Under distinct ids a prune keeps what it selects. -/
theorem pruned_perm (hnodup : (revisions.map ContentRevisionRow.id).Nodup) :
    (Database.pruned revisions).Perm (Database.keptRevisions revisions) := by
  have hsplit : Database.keptRevisions revisions ++ (byStart revisions).drop REVISION_LIMIT =
      byStart revisions := List.take_append_drop _ _
  refine ((byStart_perm revisions).filter _).symm.trans ?_
  rw [← hsplit, List.filter_append, List.filter_eq_self.mpr fun v hv =>
    decide_eq_true (List.mem_map_of_mem hv), List.filter_eq_nil_iff.mpr, List.append_nil]
  intro v hv hkept
  have hids := ((byStart_perm revisions).map ContentRevisionRow.id).nodup_iff.mpr hnodup
  rw [← hsplit, List.map_append] at hids
  exact List.disjoint_of_nodup_append hids (of_decide_eq_true hkept) (List.mem_map_of_mem hv)

/-- A prune keeps up to fifty revisions, all of them. -/
theorem kept_of_room (hroom : revisions.length ≤ REVISION_LIMIT) :
    Database.keptRevisions revisions = byStart revisions :=
  List.take_of_length_le ((byStart_perm revisions).length_eq.trans_le hroom)

/-- A prune of one revision too many drops one, and every other was written by a later
start, or by the same one. -/
theorem kept_of_full (hfull : revisions.length = REVISION_LIMIT + 1) :
    ∃ last, (Database.keptRevisions revisions ++ [last]).Perm revisions ∧
      ∀ v ∈ revisions, v = last ∨ Database.newerRevision v last = true := by
  have hlength : (byStart revisions).length = REVISION_LIMIT + 1 :=
    (byStart_perm revisions).length_eq.trans hfull
  obtain ⟨last, hlast⟩ : ∃ last, (byStart revisions).drop REVISION_LIMIT = [last] :=
    List.length_eq_one_iff.mp (by rw [List.length_drop]; omega)
  have hsplit : Database.keptRevisions revisions ++ [last] = byStart revisions :=
    hlast ▸ List.take_append_drop REVISION_LIMIT (byStart revisions)
  refine ⟨last, hsplit ▸ byStart_perm revisions, fun v hv => ?_⟩
  have hmem : v ∈ Database.keptRevisions revisions ++ [last] :=
    hsplit ▸ (byStart_perm revisions).mem_iff.mpr hv
  have hsorted : (byStart revisions).Pairwise (Database.newerRevision · ·) :=
    List.pairwise_insertionSort _ _
  rw [← hsplit, List.pairwise_append] at hsorted
  rcases List.mem_append.mp hmem with hkept | heq
  · exact .inr (hsorted.2.2 v hkept last List.mem_cons_self)
  · exact .inl (List.mem_singleton.mp heq)

/-- The primary key tells a new revision from up to fifty old ones. -/
theorem fresh_of_pruned {v : ContentRevisionRow} (hlimit : revisions.length ≤ REVISION_LIMIT)
    (hleft : ((Database.pruned (v :: revisions)).map ContentRevisionRow.id).Nodup) :
    v.id ∉ revisions.map ContentRevisionRow.id := by
  intro hmem
  obtain ⟨x, hx, hxid⟩ := List.mem_map.mp hmem
  by_cases hkept : v.id ∈ (Database.keptRevisions (v :: revisions)).map ContentRevisionRow.id
  · -- both are kept, under one id
    have hboth : Database.pruned (v :: revisions) = v :: revisions.filter fun y =>
        y.id ∈ (Database.keptRevisions (v :: revisions)).map (·.id) :=
      List.filter_cons_of_pos (decide_eq_true hkept)
    rw [hboth, List.map_cons, List.nodup_cons] at hleft
    refine hleft.1 (hxid ▸ List.mem_map_of_mem (List.mem_filter.mpr ⟨hx, ?_⟩))
    exact decide_eq_true (hxid.symm ▸ hkept)
  · -- both go, and a prune takes one at most
    let own : ContentRevisionRow → Bool := fun y => y.id = v.id
    have hnone : (Database.keptRevisions (v :: revisions)).filter own = [] :=
      List.filter_eq_nil_iff.mpr fun y hy hown =>
        hkept (of_decide_eq_true hown ▸ List.mem_map_of_mem hy)
    have hself : own v = true := decide_eq_true rfl
    have htwo : 2 ≤ ((v :: revisions).filter own).length := by
      rw [List.filter_cons_of_pos hself, List.length_cons]
      have hother : own x = true := decide_eq_true hxid
      exact Nat.succ_le_succ (List.length_pos_of_mem (List.mem_filter.mpr ⟨hx, hother⟩))
    have hone : ((byStart (v :: revisions)).drop REVISION_LIMIT).length ≤ 1 := by
      rw [List.length_drop, (byStart_perm _).length_eq, List.length_cons]
      omega
    have hsplit : Database.keptRevisions (v :: revisions) ++
        (byStart (v :: revisions)).drop REVISION_LIMIT = byStart (v :: revisions) :=
      List.take_append_drop _ _
    rw [← ((byStart_perm (v :: revisions)).filter own).length_eq, ← hsplit, List.filter_append,
      hnone, List.nil_append] at htwo
    have := List.length_filter_le own ((byStart (v :: revisions)).drop REVISION_LIMIT)
    omega

/-- Where the history is full, its oldest version was superseded by a transaction that
started no later than any other, and than the one that started at `now`. -/
def OldestStartedFirst (now : Nat) (revisions : List ContentRevisionRow) : Prop :=
  REVISION_LIMIT ≤ revisions.length → ∀ old ∈ revisions,
    (∀ y ∈ revisions, old.version ≤ y.version) →
      old.createdAt ≤ now ∧ ∀ y ∈ revisions, old.createdAt ≤ y.createdAt

theorem start_le_of_newer {v last : ContentRevisionRow}
    (h : Database.newerRevision v last = true) : last.createdAt ≤ v.createdAt := by
  rw [Database.newerRevision] at h
  split at h
  · exact Nat.le_of_lt (of_decide_eq_true h)
  · omega

/-- The newest versions are left of one too many if and only if the oldest goes. -/
theorem newest_left_iff {kept : List Nat} {last n : Nat} (hfull : REVISION_LIMIT ≤ n - 1)
    (h : (kept ++ [last]).Perm (n :: supersededVersions n)) :
    kept.Perm (supersededVersions (n + 1)) ↔ last = n - REVISION_LIMIT := by
  rw [supersededVersions_full hfull] at h
  constructor
  · intro hkept
    have hcancel := (hkept.append_right [last]).symm.trans h
    exact List.singleton_perm_singleton.mp ((List.perm_append_left_iff _).mp hcancel)
  · intro heq
    rw [heq] at h
    exact (List.perm_append_right_iff _).mp h

/-- The last of a full history in the order of a prune is the oldest version exactly where
that one has the earliest start. -/
theorem last_oldest_iff {v last : ContentRevisionRow} {oldest : Nat}
    (hfull : REVISION_LIMIT ≤ revisions.length)
    (hlast : ∀ x ∈ v :: revisions, x = last ∨ Database.newerRevision x last = true)
    (hmem : last ∈ v :: revisions) (hunique : ∀ a ∈ v :: revisions, ∀ b ∈ v :: revisions,
      a.version = b.version → a = b)
    (hold : oldest ∈ revisions.map (·.version)) (hleast : ∀ y ∈ revisions, oldest ≤ y.version)
    (hv : oldest < v.version) :
    last.version = oldest ↔ OldestStartedFirst v.createdAt revisions := by
  obtain ⟨old, holdmem, rfl⟩ := List.mem_map.mp hold
  constructor
  · intro heq _ x hx hmin
    obtain rfl : x = last := by
      refine hunique x (List.mem_cons_of_mem _ hx) last hmem ?_
      rw [heq]
      exact Nat.le_antisymm (hmin old holdmem) (hleast x hx)
    have hstart : ∀ y ∈ v :: revisions, x.createdAt ≤ y.createdAt := by
      intro y hy
      rcases hlast y hy with rfl | hnewer
      · exact Nat.le_refl _
      · exact start_le_of_newer hnewer
    exact ⟨hstart v List.mem_cons_self, fun y hy => hstart y (List.mem_cons_of_mem _ hy)⟩
  · intro hcond
    obtain ⟨hnow, hothers⟩ := hcond hfull old holdmem hleast
    have hstart : old.createdAt ≤ last.createdAt := by
      rcases List.mem_cons.mp hmem with rfl | hmem
      · exact hnow
      · exact hothers last hmem
    rcases hlast old (List.mem_cons_of_mem _ holdmem) with rfl | hnewer
    · rfl
    · -- the starts are equal, so that the versions decided
      rw [Database.newerRevision] at hnewer
      split at hnewer
      · have := of_decide_eq_true hnewer
        omega
      · have hle := of_decide_eq_true hnewer
        rcases List.mem_cons.mp hmem with rfl | hmem
        · omega
        · exact Nat.le_antisymm hle (hleast last hmem)

/-- **One write**: the newest versions stay the newest ones exactly where the oldest
version is the one with the earliest start. -/
theorem pruned_newest_iff {v : ContentRevisionRow} {n : Nat} (hn : 1 ≤ n) (hv : v.version = n)
    (hids : ((v :: revisions).map ContentRevisionRow.id).Nodup)
    (hversions : (revisions.map (·.version)).Perm (supersededVersions n)) :
    ((Database.pruned (v :: revisions)).map (·.version)).Perm (supersededVersions (n + 1)) ↔
      OldestStartedFirst v.createdAt revisions := by
  have hlength : revisions.length = min REVISION_LIMIT (n - 1) := by
    simpa [supersededVersions] using hversions.length_eq
  have hall : ((v :: revisions).map (·.version)).Perm (n :: supersededVersions n) := by
    rw [List.map_cons, hv]
    exact hversions.cons n
  have hpruned := (pruned_perm hids).map (·.version)
  by_cases hfull : REVISION_LIMIT ≤ n - 1
  · have hmany : (v :: revisions).length = REVISION_LIMIT + 1 := by
      rw [List.length_cons]
      omega
    obtain ⟨last, hperm, hlast⟩ := kept_of_full hmany
    have hsum := (hperm.map (·.version)).trans hall
    rw [List.map_append, List.map_singleton] at hsum
    have hleast : ∀ y ∈ revisions, n - REVISION_LIMIT ≤ y.version := fun y hy => by
      have := mem_supersededVersions.mp (hversions.mem_iff.mp (List.mem_map_of_mem hy))
      omega
    have hold : n - REVISION_LIMIT ∈ revisions.map (·.version) :=
      hversions.mem_iff.mpr (mem_supersededVersions.mpr (by unfold REVISION_LIMIT at *; omega))
    have hnodup : ((v :: revisions).map (·.version)).Nodup := hall.nodup_iff.mpr
      (List.nodup_cons.mpr ⟨fun h => by have := mem_supersededVersions.mp h; omega,
        (supersededVersions_sorted n).imp fun h => by omega⟩)
    rw [hpruned.congr_left, newest_left_iff hfull hsum]
    refine last_oldest_iff (by omega) hlast
      (hperm.mem_iff.mp (List.mem_append_right _ List.mem_cons_self))
      (fun a ha b hb => List.inj_on_of_nodup_map hnodup ha hb) hold hleast ?_
    unfold REVISION_LIMIT at *
    omega
  -- there is room for all of them, and nothing goes
  · have hroom : (v :: revisions).length ≤ REVISION_LIMIT := by
      rw [List.length_cons]
      omega
    rw [kept_of_room hroom] at hpruned
    refine iff_of_true ?_ fun h => by omega
    rw [supersededVersions_room hn (by omega)]
    exact hpruned.trans (((byStart_perm _).map _).trans hall)

end Pruning

/-! ## Runs -/

/-- Every history is that of the newest versions. -/
def Database.KeepsNewest (db : Database) : Prop :=
  ∀ j r, db.content j = some r →
    1 ≤ r.version ∧ ((db.revisionsOf j).map (·.version)).Perm (supersededVersions r.version)

/-- A commit that supersedes documents finds the oldest version of each full history under
the earliest start, its own included. -/
def InStartOrder (e : Committed Database Call (List ContentRow)) : Prop :=
  ∀ stamps, e.call.stamps = some stamps → ∀ j r r', e.found.content j = some r →
    e.left.content j = some r' → r'.version ≠ r.version →
      OldestStartedFirst stamps.now (e.found.revisionsOf j)

section Runs
variable {e : Committed Database Call (List ContentRow)}

theorem revisionsOf_ids {db : Database} (h : db.Constraints) (j : Uuid) :
    ((db.revisionsOf j).map ContentRevisionRow.id).Nodup :=
  h.content_revisions_pkey.sublist (List.filter_sublist.map _)

theorem revisionsOf_of_none {db : Database} (h : db.Constraints) {j : Uuid}
    (hnone : db.content j = none) : db.revisionsOf j = [] := by
  refine List.filter_eq_nil_iff.mpr fun v hv hj => ?_
  obtain ⟨r, hr, hid⟩ := h.content_revisions_content_fk v hv
  have hsome := Database.content_of_mem h hr
  rw [hid, of_decide_eq_true hj, hnone] at hsome
  cases hsome

theorem Database.KeepsNewest.length {db : Database} (h : db.KeepsNewest) {j : Uuid}
    {r : ContentRow} (hr : db.content j = some r) :
    (db.revisionsOf j).length = min REVISION_LIMIT (r.version - 1) := by
  simpa [supersededVersions] using (h j r hr).2.length_eq

/-- One commit keeps the newest versions of a document, or supersedes it, and keeps them
exactly where the starts allow it. -/
theorem meets_newest (he : e.Meets (contentsDiscipline AnyOrder)) (h : e.found.KeepsNewest)
    (j : Uuid) :
    (∀ r', e.left.content j = some r' → 1 ≤ r'.version ∧
      ((e.left.revisionsOf j).map (·.version)).Perm (supersededVersions r'.version) ∧
      ∀ r, e.found.content j = some r → r'.version = r.version) ∨
    ∃ r r' stamps, e.call.stamps = some stamps ∧ e.found.content j = some r ∧
      e.left.content j = some r' ∧ r'.version = r.version + 1 ∧
      e.left.revisionsOf j = Database.pruned (r.revision stamps :: e.found.revisionsOf j) ∧
      (((e.left.revisionsOf j).map (·.version)).Perm (supersededVersions r'.version) ↔
        OldestStartedFirst stamps.now (e.found.revisionsOf j)) := by
  cases he.post.history j with
  | kept revisions version =>
    refine .inl fun r' hr' => ?_
    obtain ⟨r, hr, hversion⟩ := version r' hr'
    rw [hversion, revisions]
    refine ⟨(h j r hr).1, (h j r hr).2, fun q hq => ?_⟩
    rw [Option.some.inj (hr.symm.trans hq)]
  | created revisions before version =>
    refine .inl fun r' hr' => ?_
    rw [version r' hr', revisions, revisionsOf_of_none he.found.constraints before]
    refine ⟨Nat.le_refl 1, List.Perm.refl _, fun q hq => ?_⟩
    rw [before] at hq
    cases hq
  | superseded current next stamps hcall before after version revisions =>
    refine .inr ⟨current, next, stamps, hcall, before, after, version, revisions, ?_⟩
    -- the primary key of what was left says that the revision written is a new one
    have hleft := revisionsOf_ids he.left.constraints j
    have hlength := h.length before
    rw [revisions] at hleft ⊢
    rw [version]
    exact pruned_newest_iff (h j current before).1 rfl
      (List.nodup_cons.mpr ⟨fresh_of_pruned (by omega) hleft,
        revisionsOf_ids he.found.constraints j⟩) (h j current before).2
  | deleted after revisions =>
    refine .inl fun r' hr' => ?_
    rw [after] at hr'
    cases hr'

/-- **One commit** keeps the newest versions exactly where it is in the order of starts. -/
theorem meets_newest_iff (he : e.Meets (contentsDiscipline AnyOrder)) (h : e.found.KeepsNewest) :
    e.left.KeepsNewest ↔ InStartOrder e := by
  constructor
  · intro hleft stamps hstamps j r r' hr hr' hne
    rcases meets_newest he h j with hkept | ⟨q, q', stamps', hcall, hq, hq', -, -, hiff⟩
    · exact absurd ((hkept r' hr').2.2 r hr) hne
    · obtain rfl := Option.some.inj (hstamps.symm.trans hcall)
      exact hiff.mp (hleft j q' hq').2
  · intro horder j r' hr'
    rcases meets_newest he h j with hkept | ⟨q, q', stamps, hcall, hq, hq', hversion, -, hiff⟩
    · exact ⟨(hkept r' hr').1, (hkept r' hr').2.1⟩
    · obtain rfl := Option.some.inj (hr'.symm.trans hq')
      exact ⟨by omega, hiff.mpr (horder stamps hcall j q r' hq hr' (by omega))⟩

/-- The list of such a history has the versions that were superseded, newest first. -/
theorem Database.KeepsNewest.listed {db : Database} (h : db.KeepsNewest) {j : Uuid}
    {r : ContentRow} (hr : db.content j = some r) :
    (db.listRevisions j REVISION_LIMIT).map (·.version) = supersededVersions r.version := by
  have hsorted : (((db.revisionsOf j).insertionSort (·.version ≥ ·.version)).map (·.version)) =
      supersededVersions r.version := by
    rw [List.map_insertionSort (r := fun a b : ContentRevisionRow => a.version ≥ b.version)
      (s := (· ≥ ·)) (fun v : ContentRevisionRow => v.version) _ fun _ _ _ _ => Iff.rfl]
    refine ((List.perm_insertionSort _ _).trans (h j r hr).2).eq_of_pairwise'
      (r := (· ≥ ·)) (List.pairwise_insertionSort _ _) ?_
    exact (supersededVersions_sorted _).imp fun h => Nat.le_of_lt h
  rw [Database.listRevisions, List.map_take, hsorted]
  refine List.take_of_length_le ?_
  simp [supersededVersions, REVISION_LIMIT]

/-- A write that superseded a document recorded it, and the record is there. -/
theorem meets_recorded (he : e.Meets (contentsDiscipline AnyOrder)) (h : e.found.KeepsNewest)
    (hleft : e.left.KeepsNewest) {j : Uuid} {r r' : ContentRow} (hr : e.found.content j = some r)
    (hr' : e.left.content j = some r') (hne : r'.version ≠ r.version) :
    ∃ v ∈ e.left.revisionsOf j, Records v r := by
  rcases meets_newest he h j with hkept | ⟨q, q', stamps, -, hq, hq', hversion, hrevisions, -⟩
  · exact absurd ((hkept r' hr').2.2 r hr) hne
  · obtain rfl := Option.some.inj (hr.symm.trans hq)
    obtain rfl := Option.some.inj (hr'.symm.trans hq')
    have hpos := (h j r hr).1
    have hmem : r.version ∈ (e.left.revisionsOf j).map (·.version) :=
      (hleft j r' hr').2.mem_iff.mpr
        (mem_supersededVersions.mpr (by unfold REVISION_LIMIT; omega))
    obtain ⟨v, hv, hvr⟩ := List.mem_map.mp hmem
    refine ⟨v, hv, ?_⟩
    rw [hrevisions] at hv
    rcases List.mem_cons.mp (List.mem_filter.mp hv).1 with rfl | hold
    · exact ⟨rfl, rfl, rfl⟩
    · -- what was there before is of an earlier version
      have := mem_supersededVersions.mp
        ((h j r hr).2.mem_iff.mp (List.mem_map_of_mem (f := (·.version)) hold))
      omega

end Runs

/-- What the history of every document of a run is. -/
structure NewestFifty {I : Type} (m : ContentMachine I) : Prop where
  retained : ∀ s ∈ m.states, s.KeepsNewest
  /-- Consecutive versions, with none missing. -/
  listed : ∀ s ∈ m.states, ∀ j r, s.content j = some r →
    (s.listRevisions j REVISION_LIMIT).map (·.version) = supersededVersions r.version
  /-- The state that a write superseded is there. -/
  recorded : ∀ e ∈ m.log, ∀ j r r', e.found.content j = some r → e.left.content j = some r' →
    r'.version ≠ r.version → ∃ v ∈ e.left.revisionsOf j, Records v r

/-- **The history is the newest fifty** in the runs whose commits are in the order of the
starts, and in no others. -/
theorem history_newest_iff {I : Type} [DecidableEq I] {«media» : List MediaRow}
    {m : ContentMachine I}
    (hrun : Run engine program (fun _ => True) (.start (Database.empty «media»)) m) :
    NewestFifty m ↔ ∀ e ∈ m.log, InStartOrder e := by
  have hlog := run_log (empty_inv «media») hrun
  have hfound : ∀ e ∈ m.log, e.found ∈ m.states := fun e he =>
    List.mem_cons_of_mem _ (List.mem_map_of_mem he)
  have hleft : ∀ e ∈ m.log, e.left ∈ m.states := fun e he => hrun.linked.left_mem he
  constructor
  · intro h e he
    exact (meets_newest_iff (hlog e he) (h.retained _ (hfound e he))).mp (h.retained _ (hleft e he))
  · intro horder
    have hretained : ∀ s ∈ m.states, s.KeepsNewest :=
      hrun.linked.invariant (fun _ _ h => nomatch h) fun e he h =>
        (meets_newest_iff (hlog e he) h).mpr (horder e he)
    exact ⟨hretained, fun s hs j r hr => (hretained s hs).listed hr, fun e he j r r' hr hr' hne =>
      meets_recorded (hlog e he) (hretained _ (hfound e he)) (hretained _ (hleft e he)) hr hr' hne⟩

theorem history_newest_saved_page : ∃ m : ContentMachine Nat,
    (Machine.start (Database.empty [])).steps engine program
      (wholeCall 0 (createPage (emptyPage "about" none) 1 none) 4 ++
        wholeCall 1 (savePage 1 { title := some "About us" } (some 1) 500) 7) = some m ∧
    (m.db.listRevisions 1 REVISION_LIMIT).map (·.version) = [1] ∧ NewestFifty m := by
  have heval : ((Machine.start (Database.empty []) : ContentMachine Nat).steps engine program
      (wholeCall 0 (createPage (emptyPage "about" none) 1 none) 4 ++
        wholeCall 1 (savePage 1 { title := some "About us" } (some 1) 500) 7)).any (fun m =>
      decide ((m.db.listRevisions 1 REVISION_LIMIT).map (·.version) = [1]) &&
        m.log.all fun e => e.found.revisions.length < REVISION_LIMIT) = true := by decide +kernel
  obtain ⟨m, hm, hrun, hcheck⟩ := Run.of_eval heval
  rw [Bool.and_eq_true, List.all_eq_true] at hcheck
  refine ⟨m, hm, of_decide_eq_true hcheck.1, (history_newest_iff hrun).mpr ?_⟩
  intro e he stamps _ j r r' _ _ _ hfull
  -- no history of this run is full
  have hshort := of_decide_eq_true (hcheck.2 e he)
  have := List.length_filter_le (fun v : ContentRevisionRow => v.contentId = j) e.found.revisions
  exact absurd (Nat.le_trans hfull this) (by omega)

/-! ### A pass that waited -/

/-- When the transaction of a call started, as its statements read it. -/
def Call.startedAt : Call → Option Nat
  | .createContent _ fresh => some fresh.now
  | .updateContent _ _ _ _ stamps | .publishDueContent _ stamps => some stamps.now
  | .deleteContent .. => none

/-- The transactions start one after the other, by the clock they read. -/
def ClockedStarts {I : Type} (actions : List (Action Call I)) : Prop :=
  (actions.filterMap fun
    | .begin_ _ call => call.startedAt
    | _ => none).Pairwise (· ≤ ·)

/-- A save of the page that starts at `now`. -/
def saveAt (docId now : Nat) : Call :=
  .updateContent (pageType fun _ => false) docId {} ⟨none, none, none⟩
    ⟨fun _ => 500 + now, fun _ => now, now⟩

/-- A page that is due from the beginning. -/
def duePage (slug : String) : ContentState :=
  { emptyPage slug none with status := .scheduled, publishedAt := some 0 }

/-- Two pages are due.  A save of the first holds its row, the pass waits for it, and
meanwhile the second is saved fifty times; then the pass publishes both. -/
def passWaited : List (Action Call Nat) :=
  wholeCall 0 (createPage (duePage "one") 1 none) 4 ++
    wholeCall 0 (createPage (duePage "two") 2 none) 4 ++
    [.begin_ 1 (saveAt 1 3), .advance 1,
      .begin_ 2 (.publishDueContent 4 ⟨fun j => 900 + j, fun _ => 4, 4⟩), .advance 2] ++
    ((List.range 50).flatMap fun k => wholeCall 0 (saveAt 2 (5 + k)) 7) ++
    List.replicate 6 (.advance 1) ++ [.commit 1] ++ List.replicate 10 (.advance 2) ++ [.commit 2]

set_option maxRecDepth 100000 in
/-- **The state that a pass just superseded is lost**, of a page that was saved fifty
times while the pass waited for another one. -/
theorem pass_loses_superseded : ∃ m : ContentMachine Nat,
    (Machine.start (Database.empty [])).steps engine program passWaited = some m ∧
    ClockedStarts passWaited ∧ Run engine program (fun _ => True) (.start (Database.empty [])) m ∧
    ¬ NewestFifty m := by
  have heval : ((Machine.start (Database.empty []) : ContentMachine Nat).steps engine program
      passWaited).any (fun m => (m.db.content 2).any fun r => r.version = 52 &&
        (m.db.revisionsOf 2).all fun v => v.version ≠ 51) = true := by decide +kernel
  obtain ⟨m, hm, hrun, hcheck⟩ := Run.of_eval heval
  simp only [Option.any_eq_true, Bool.and_eq_true, decide_eq_true_eq, List.all_eq_true] at hcheck
  obtain ⟨r, hr, hversion, hno⟩ := hcheck
  refine ⟨m, hm, by unfold ClockedStarts; decide +kernel, hrun, fun h => ?_⟩
  have hperm := (h.retained m.db List.mem_cons_self 2 r hr).2
  rw [hversion] at hperm
  obtain ⟨v, hv, heq⟩ := List.mem_map.mp
    (hperm.mem_iff.mpr (mem_supersededVersions.mpr (by decide : 1 ≤ 51 ∧ 51 < 52 ∧ 52 ≤ 51 + 50)))
  exact hno v hv heq

end PressLabz
