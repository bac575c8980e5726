import Mathlib.Data.List.Pairwise
import PressLabz.PageTree

/-! # Versions and history

What one commit does to one document (`DocChange`), read off the postcondition
of the call, and what follows for whole runs: how the versions of a document
count, what its history records, and when a version says what a document is.

A deletion turns the children of the document into roots, and sets nothing else
of them: their version stays, and nothing is recorded.  So a version identifies
a document's content in the runs that delete no document with children
(`version_identifies`).
-/
namespace PressLabz
open RowLocks

/-- A revision that records a row. -/
structure Records (v : ContentRevisionRow) (r : ContentRow) : Prop where
  columns : v.toColumns = r.toColumns
  contentId : v.contentId = r.id
  version : v.version = r.version

/-- A write that supersedes a row: the next version, and one revision more. -/
structure Superseded (found left : Database) (current next : ContentRow) : Prop where
  version : next.version = current.version + 1
  same : SameDocument current next
  revision : ∃ v, Records v current ∧
    left.revisionsOf current.id = Database.pruned (v :: found.revisionsOf current.id)

/-- What a commit does to one document. -/
inductive DocChange (call : Call) (found left : Database) (j : Uuid) : Prop
  | untouched (content : left.content j = found.content j)
      (revisions : left.revisionsOf j = found.revisionsOf j)
      (references : left.mediaOf j = found.mediaOf j)
  | created (r : ContentRow) (input : CreateContentInput) (fresh : Fresh)
      (hcall : call = .createContent input fresh) (before : found.content j = none)
      (after : left.content j = some r) (version : r.version = 1)
  | written (current next : ContentRow) (before : found.content j = some current)
      (after : left.content j = some next) (superseded : Superseded found left current next)
      (writer : (∃ type patch options stamps, call = .updateContent type j patch options stamps) ∨
        ∃ now stamps, call = .publishDueContent now stamps)
  | detached (current : ContentRow) (docId : Uuid) (authorize : Option (ContentRow → Bool))
      (scan : Scan) (hcall : call = .deleteContent docId authorize scan) (before : found.content j = some current)
      (child : current.parentId = some docId)
      (after : left.content j = some (current.put current.detached))
  | deleted (current : ContentRow) (docId : Uuid) (authorize : Option (ContentRow → Bool))
      (scan : Scan) (hcall : call = .deleteContent docId authorize scan) (before : found.content j = some current)
      (after : left.content j = none)

section Commit
variable {found left : Database} {call : Call} {answer : List ContentRow} {j : Uuid}
  {stamps : Stamps} {current : ContentRow} {w : RowWrite}

/-- A write of the next version that records what it supersedes. -/
theorem Superseded.of_put (hw : w.version = current.version + 1)
    (hrev : left.revisionsOf current.id =
      Database.pruned (current.revision stamps :: found.revisionsOf current.id)) :
    Superseded found left current (current.put w) :=
  ⟨hw, .put current w, current.revision stamps, ⟨rfl, rfl, rfl⟩, hrev⟩

/-- The revisions a pass writes, one for each row it claimed. -/
theorem revisionsOf_publishEach (stamps : Stamps) {claimed : List ContentRow}
    (hnodup : (claimed.map (·.id)).Nodup) (hrow : ∀ r ∈ claimed, found.content r.id = some r)
    {r : ContentRow} (hr : r ∈ claimed) :
    (claimed.foldl (·.published stamps) found).revisionsOf r.id =
      Database.pruned (r.revision stamps :: found.revisionsOf r.id) := by
  obtain ⟨turn, hbefore, hafter⟩ := publishEach_turn stamps hnodup hrow hr
  have hrevisions : (turn.published stamps r).revisionsOf r.id =
      Database.pruned (r.revision stamps :: turn.revisionsOf r.id) := revisionsOf_superseded
  rw [hbefore.revisions] at hrevisions
  exact hafter.revisions.trans hrevisions

/-- Every row a pass claimed is published, once. -/
theorem publishEach_written (stamps : Stamps) {claimed : List ContentRow}
    (hnodup : (claimed.map (·.id)).Nodup) (hrow : ∀ r ∈ claimed, found.content r.id = some r)
    {r : ContentRow} (hr : r ∈ claimed) :
    (claimed.foldl (·.published stamps) found).content r.id =
        some (r.put (r.publication stamps)) ∧
      Superseded found (claimed.foldl (·.published stamps) found) r
        (r.put (r.publication stamps)) := by
  obtain ⟨turn, hbefore, hafter⟩ := publishEach_turn stamps hnodup hrow hr
  have hturn : turn.content r.id = some r := hbefore.content.trans (hrow r hr)
  exact ⟨hafter.content.trans (content_superseded hturn),
    .of_put rfl (revisionsOf_publishEach stamps hnodup hrow hr)⟩

/-- **What a committed call does to each document.** -/
theorem Post.change (h : Post call answer found left) (j : Uuid) :
    DocChange call found left j := by
  cases call with
  | createContent input fresh =>
    obtain ⟨-, hnew, -, rfl⟩ := h
    by_cases hj : j = fresh.id
    · subst hj
      exact .created _ input fresh rfl hnew (by rw [content_created, if_pos rfl]) rfl
    · exact .untouched (content_created_of_ne hj) revisionsOf_created (mediaOf_created_of_ne hj)
  | updateContent type docId patch options stamps =>
    rcases h with ⟨-, rfl⟩ | ⟨current, next, hcur, -, -, rfl⟩
    · exact .untouched rfl rfl rfl
    · obtain rfl : current.id = docId := Database.id_of_content hcur
      by_cases hj : j = current.id
      · subst hj
        exact .written current _ hcur (content_updated hcur)
          (.of_put (w := next.write current stamps) rfl
            (revisionsOf_superseded (w := next.write current stamps)))
          (.inl ⟨type, patch, options, stamps, rfl⟩)
      · exact .untouched (content_updated_of_ne hj)
          (revisionsOf_superseded_of_ne (w := next.write current stamps) hj)
          (mediaOf_updated_of_ne hj)
  | deleteContent docId authorize scan =>
    rcases h with ⟨-, rfl⟩ | ⟨current, hcur, -, -, rfl⟩
    · exact .untouched rfl rfl rfl
    · obtain rfl : current.id = docId := Database.id_of_content hcur
      by_cases hj : j = current.id
      · subst hj
        refine .deleted current _ authorize scan rfl hcur ?_
        rw [content_removed, content_withoutDocument, if_pos rfl]
      · have hcontent : (found.removed current).content j = _ := content_removed
        rw [content_withoutDocument, if_neg hj] at hcontent
        by_cases hchild : ∃ r, found.content j = some r ∧ r.parentId = some current.id
        · obtain ⟨r, hr, hp⟩ := hchild
          rw [hr, Option.map_some, if_pos hp] at hcontent
          exact .detached r _ authorize scan rfl hr hp hcontent
        · refine .untouched ?_ ((rest_removed (·.revisionsOf j) fun _ _ => rfl).trans
            (Database.revisionsOf_deleteContent_of_ne hj))
            ((rest_removed (·.mediaOf j) fun _ _ => rfl).trans
              (Database.mediaOf_deleteContent_of_ne hj))
          rw [hcontent]
          cases hr : found.content j with
          | none => rfl
          | some r => rw [Option.map_some, if_neg fun hp => hchild ⟨r, hr, hp⟩]
  | publishDueContent now stamps =>
    obtain ⟨claimed, hnodup, hrows, -, rfl⟩ := h
    have hrow : ∀ r ∈ claimed, found.content r.id = some r := fun r hr => (hrows r hr).1
    -- a document is claimed by the pass, or is none of its business
    by_cases hj : ∃ r ∈ claimed, r.id = j
    · obtain ⟨r, hr, rfl⟩ := hj
      obtain ⟨hcontent, hs⟩ := publishEach_written stamps hnodup hrow hr
      exact .written r _ (hrow r hr) hcontent hs (.inr ⟨now, stamps, rfl⟩)
    · obtain ⟨-, -, hdocs, -⟩ := publishEach_frame stamps hnodup hrow
      have hframe := hdocs j fun r hr heq => hj ⟨r, hr, heq⟩
      exact .untouched hframe.content hframe.revisions hframe.contentMedia

end Commit
/-! ## Progress -/

/-- What the versions of the documents do from one committed state to a later one. -/
structure Progress (a b : Database) : Prop where
  always : Always a b
  constraints : b.Constraints
  version : ∀ j r r', a.content j = some r → b.content j = some r' → r.version ≤ r'.version

/-- A document that is there before and after was there in between. -/
theorem Progress.between {a b c : Database} (h : Progress a b) (h' : Progress b c) {j : Uuid}
    {r r' : ContentRow} (hr : a.content j = some r) (hr' : c.content j = some r') :
    ∃ q, b.content j = some q := by
  rcases h.always.kept j r hr with ⟨q, hq, -⟩ | hret
  · exact ⟨q, hq⟩
  · have hid := Database.id_of_content hr'
    exact absurd (hid ▸ h'.always.retired j hret)
      (h'.constraints.fresh r' (Database.mem_of_content hr'))

theorem Progress.trans (a b c : Database) (h : Progress a b) (h' : Progress b c) :
    Progress a c where
  always := h.always.trans h'.always
  constraints := h'.constraints
  version j r r' hr hr' := by
    obtain ⟨q, hq⟩ := h.between h' hr hr'
    exact Nat.le_trans (h.version j r q hr hq) (h'.version j q r' hq hr')

theorem Progress.refl {a : Database} (hc : a.Constraints) : Progress a a where
  always := .refl a
  constraints := hc
  version j r r' hr hr' := by
    rw [hr] at hr'
    exact Option.some.inj hr' ▸ Nat.le_refl _

variable {e : Committed Database Call (List ContentRow)} {j : Uuid}

/-- A row that a commit finds and leaves: kept, superseded, or made a root. -/
theorem change_row (he : e.Meets (contentsDiscipline AnyOrder)) {r r' : ContentRow}
    (hr : e.found.content j = some r) (hr' : e.left.content j = some r') :
    r' = r ∨ Superseded e.found e.left r r' ∨
      (∃ docId authorize scan, e.call = .deleteContent docId authorize scan ∧ r.parentId = some docId ∧
        r' = r.put r.detached) := by
  have hchange := Post.change he.post j
  cases hchange with
  | untouched content _ _ =>
    rw [content, hr] at hr'
    exact .inl (Option.some.inj hr').symm
  | created _ _ _ _ before _ _ =>
    rw [hr] at before
    cases before
  | written current next before after superseded _ =>
    obtain rfl := Option.some.inj (hr.symm.trans before)
    obtain rfl := Option.some.inj (hr'.symm.trans after)
    exact .inr (.inl superseded)
  | detached current docId authorize scan hcall before child after =>
    obtain rfl := Option.some.inj (hr.symm.trans before)
    exact .inr (.inr ⟨docId, authorize, scan, hcall, child, Option.some.inj (hr'.symm.trans after)⟩)
  | deleted _ _ _ _ _ _ after =>
    rw [hr'] at after
    cases after

theorem meets_progress (he : e.Meets (contentsDiscipline AnyOrder)) :
    Progress e.found e.left where
  always := he.always
  constraints := he.left.constraints
  version j r r' hr hr' := by
    rcases change_row he hr hr' with rfl | hs | ⟨_, _, _, -, -, rfl⟩
    · exact Nat.le_refl _
    · have := hs.version
      omega
    · exact Nat.le_refl _

/-! ## When a version says what a document is -/

/-- Where two states have a document in one version, they agree on its editorial
fields. -/
def AgreeByVersion (s t : Database) : Prop :=
  ∀ j r r', s.content j = some r → t.content j = some r' → r.version = r'.version →
    r.toColumns = r'.toColumns

instance : Std.Symm AgreeByVersion :=
  ⟨fun _ _ h j r r' hr hr' hv => (h j r' r hr' hr hv.symm).symm⟩

theorem AgreeByVersion.refl (s : Database) : AgreeByVersion s s := by
  intro j r r' hr hr' _
  rw [hr] at hr'
  rw [Option.some.inj hr']

/-- Any two committed states of a document with one version agree. -/
def VersionIdentifies {I : Type} (m : ContentMachine I) : Prop :=
  ∀ s ∈ m.states, ∀ t ∈ m.states, AgreeByVersion s t

/-- No editorial field changes without a new version and a revision of the old one. -/
def EditsSupersede (e : Committed Database Call (List ContentRow)) : Prop :=
  ∀ j r r', e.found.content j = some r → e.left.content j = some r' →
    r.toColumns ≠ r'.toColumns → Superseded e.found e.left r r'

/-- The call is no deletion of a document that has children. -/
def orphansNobody (db : Database) : Call → Bool
  | .deleteContent docId _ _ => (db.childrenOf docId).isEmpty
  | _ => true

/-- Progress in which one version is one set of editorial fields. -/
structure Steady (a b : Database) : Prop extends Progress a b where
  columns : AgreeByVersion a b

theorem Steady.trans (a b c : Database) (h : Steady a b) (h' : Steady b c) : Steady a c where
  toProgress := h.toProgress.trans _ _ _ h'.toProgress
  columns j r r' hr hr' hv := by
    obtain ⟨q, hq⟩ := h.toProgress.between h'.toProgress hr hr'
    have h1 := h.version j r q hr hq
    have h2 := h'.version j q r' hq hr'
    exact (h.columns j r q hr hq (by omega)).trans (h'.columns j q r' hq hr' (by omega))

/-- A commit that makes nobody a root keeps each document or supersedes it. -/
theorem change_steady (he : e.Meets (contentsDiscipline AnyOrder))
    (hno : orphansNobody e.found e.call = true) {r r' : ContentRow}
    (hr : e.found.content j = some r) (hr' : e.left.content j = some r') :
    r' = r ∨ Superseded e.found e.left r r' := by
  rcases change_row he hr hr' with h | h | ⟨docId, authorize, scan, hcall, hp, -⟩
  · exact .inl h
  · exact .inr h
  · exfalso
    rw [hcall, orphansNobody, List.isEmpty_iff] at hno
    have hmem : j ∈ e.found.childrenOf docId :=
      Database.mem_childrenOf.mpr ⟨r, Database.mem_of_content hr, hp, Database.id_of_content hr⟩
    rw [hno] at hmem
    cases hmem

theorem meets_steady (he : e.Meets (contentsDiscipline AnyOrder))
    (hno : orphansNobody e.found e.call = true) : Steady e.found e.left where
  toProgress := meets_progress he
  columns j r r' hr hr' hv := by
    rcases change_steady he hno hr hr' with rfl | hs
    · rfl
    · have := hs.version
      omega

/-- **A version identifies the content of a document** in every run that deletes
no document with children. -/
theorem version_identifies {I : Type} [DecidableEq I] {«media» : List MediaRow}
    {m : ContentMachine I}
    (hrun : Run engine program (fun _ => True) (.start (Database.empty «media»)) m)
    (hno : ∀ e ∈ m.log, orphansNobody e.found e.call = true) :
    VersionIdentifies m ∧ ∀ e ∈ m.log, EditsSupersede e := by
  have hlog := run_log (empty_inv «media») hrun
  constructor
  · have hpair := hrun.linked.pairwise Steady.trans fun e he => meets_steady (hlog e he) (hno e he)
    have hagree := hpair.imp (S := AgreeByVersion) fun h => Std.Symm.symm _ _ h.columns
    exact fun s hs t ht => hagree.forall_of_forall (fun s _ => .refl s) hs ht
  · intro e he j r r' hr hr' hne
    rcases change_steady (hlog e he) (hno e he) hr hr' with rfl | hs
    · exact absurd rfl hne
    · exact hs

/-- A save of a page, under the id its revision gets. -/
def savePage (docId : Uuid) (patch : Patch) (expectedVersion : Option Nat) (revision : Uuid) :
    Call :=
  .updateContent (pageType fun _ => false) docId patch ⟨expectedVersion, none, none⟩
    ⟨fun _ => revision, fun _ => revision, revision⟩

theorem version_identifies_saved_page : ∃ m : ContentMachine Nat,
    (Machine.start (Database.empty [])).steps engine program
      (wholeCall 0 (createPage (emptyPage "about" none) 1 none) 4 ++
        wholeCall 1 (savePage 1 { title := some "About us" } (some 1) 500) 7) = some m ∧
    VersionIdentifies m ∧ ∀ e ∈ m.log, EditsSupersede e := by
  have heval : ((Machine.start (Database.empty []) : ContentMachine Nat).steps engine program
      (wholeCall 0 (createPage (emptyPage "about" none) 1 none) 4 ++
        wholeCall 1 (savePage 1 { title := some "About us" } (some 1) 500) 7)).any
      (fun m => m.log.all fun e => orphansNobody e.found e.call) = true := by decide +kernel
  obtain ⟨m, hm, hrun, hno⟩ := Run.of_eval heval
  exact ⟨m, hm, version_identifies hrun (List.all_eq_true.mp hno)⟩

/-- A page, a page under it, and the first one deleted. -/
def parentDeleted : List (Action Call Nat) :=
  pageUnderPage ++ wholeCall 2 (.deleteContent 1 none .asFound) 9

/-- **A version does not identify the content** of a page whose parent is deleted:
it becomes a root under the version it had, and no revision says so. -/
theorem version_keeps_when_parent_deleted : ∃ m : ContentMachine Nat,
    (Machine.start (Database.empty [])).steps engine program parentDeleted = some m ∧
    Run engine program (fun _ => True) (.start (Database.empty [])) m ∧
    ¬ VersionIdentifies m ∧ m.db.revisionsOf 2 = [] := by
  have heval : ((Machine.start (Database.empty []) : ContentMachine Nat).steps engine program
      parentDeleted).any (fun m => (m.db.revisionsOf 2).isEmpty && (m.db.content 2).any fun r =>
        m.log.any fun e => (e.found.content 2).any fun r' =>
          r.version = r'.version && r.parentId ≠ r'.parentId) = true := by decide +kernel
  obtain ⟨m, hm, hrun, hcheck⟩ := Run.of_eval heval
  simp only [Bool.and_eq_true, Option.any_eq_true, List.any_eq_true, decide_eq_true_eq,
    List.isEmpty_iff] at hcheck
  obtain ⟨hrevisions, r, hr, e, he, r', hr', hversion, hparent⟩ := hcheck
  refine ⟨m, hm, hrun, fun hident => hparent ?_, hrevisions⟩
  exact congrArg Columns.parentId (hident _ List.mem_cons_self _
    (List.mem_cons_of_mem _ (List.mem_map_of_mem he)) 2 r r' hr hr' hversion)

/-! ## Optimistic concurrency -/

/-- A save of the document that expected version `v`, and saved. -/
def savedFrom (j : Uuid) (v : Nat) (e : Committed Database Call (List ContentRow)) : Bool :=
  match e.call with
  | .updateContent _ docId _ options _ =>
    docId = j && options.expectedVersion = some v && !e.answer.isEmpty
  | _ => false

/-- The calls that write documents which are there. -/
def rewrites : Call → Bool
  | .updateContent .. | .publishDueContent .. => true
  | _ => false

/-- What the saves and the scheduler make of the documents of a run. -/
structure FaithfulHistory {I : Type} [DecidableEq I] (m : ContentMachine I) : Prop where
  /-- For each version, one save at most. -/
  once : ∀ j v, (m.log.filter (savedFrom j v)).length ≤ 1
  /-- The versions of a document are 1, 2, …, without a gap. -/
  consecutive : ∀ s ∈ m.states, ∀ j r, s.content j = some r → 1 ≤ r.version ∧
    ∀ v, 1 ≤ v → v ≤ r.version → ∃ t ∈ m.states, ∃ q, t.content j = some q ∧ q.version = v
  /-- A save or a publication leaves a document alone, or supersedes it and
  records what it was. -/
  recorded : ∀ e ∈ m.log, rewrites e.call = true → ∀ j r, e.found.content j = some r →
    (e.left.content j = some r ∧ e.left.revisionsOf j = e.found.revisionsOf j ∧
      e.left.mediaOf j = e.found.mediaOf j) ∨
    ∃ r', e.left.content j = some r' ∧ Superseded e.found e.left r r'
  /-- A save writes what it was asked for, over the version it expected. -/
  saved : ∀ e ∈ m.log, ∀ type j patch options stamps,
    e.call = .updateContent type j patch options stamps → e.answer ≠ [] →
    ∃ r next, e.found.content j = some r ∧ nextState type r patch options = .ok next ∧
      (∀ v, options.expectedVersion = some v → r.version = v) ∧
      e.left.content j = some (r.put (next.write r stamps)) ∧
      Superseded e.found e.left r (r.put (next.write r stamps))
  /-- A call that is refused can only end, and leaves everything as it was. -/
  refused : ∀ i r, m.running i = some r → r.Refused engine m.db →
    ∀ (a : Action Call I) m', a.actor = i → m.step engine program a = some m' →
      m'.db = m.db ∧ m'.log = m.log ∧ m'.running i = none
  /-- No step but a commit changes anything. -/
  unchanged : ∀ (a : Action Call I) m', m.step engine program a = some m' →
    (∀ i, a ≠ .commit i) → m'.db = m.db ∧ m'.log = m.log

/-- A version that does not match is refused. -/
theorem nextState_version {type : AnyContentType} {r : ContentRow} {patch : Patch}
    {options : UpdateContentOptions} {next : ContentState}
    (h : nextState type r patch options = .ok next) {v : Nat}
    (hv : options.expectedVersion = some v) : r.version = v := by
  by_contra hne
  rw [nextState, if_pos (by simp [hv, Ne.symm hne])] at h
  cases h

/-- A save commits the next version of its document, over the version it expected. -/
theorem saved_of_meets (he : e.Meets (contentsDiscipline AnyOrder)) {type : AnyContentType}
    {patch : Patch} {options : UpdateContentOptions} {stamps : Stamps}
    (hcall : e.call = .updateContent type j patch options stamps) (hanswer : e.answer ≠ []) :
    ∃ r next, e.found.content j = some r ∧ nextState type r patch options = .ok next ∧
      (∀ v, options.expectedVersion = some v → r.version = v) ∧
      e.left.content j = some (r.put (next.write r stamps)) ∧
      Superseded e.found e.left r (r.put (next.write r stamps)) := by
  have hpost := he.post
  rw [hcall] at hpost
  rcases hpost with ⟨hnone, -⟩ | ⟨r, next, hr, hnext, -, hleft⟩
  · exact absurd hnone hanswer
  · obtain rfl : r.id = j := Database.id_of_content hr
    rw [hleft]
    exact ⟨r, next, hr, hnext, fun v hv => nextState_version hnext hv, content_updated hr,
      .of_put (w := next.write r stamps) rfl
        (revisionsOf_superseded (w := next.write r stamps))⟩

/-- A save leaves a version past the one it expected. -/
theorem savedFrom_version (he : e.Meets (contentsDiscipline AnyOrder)) {v : Nat}
    (hs : savedFrom j v e = true) :
    ∃ r r', e.found.content j = some r ∧ r.version = v ∧ e.left.content j = some r' ∧
      r'.version = v + 1 := by
  rw [savedFrom] at hs
  split at hs
  · rename_i type docId patch options stamps hcall
    simp only [Bool.and_eq_true, decide_eq_true_eq, Bool.not_eq_true', List.isEmpty_eq_false_iff]
      at hs
    obtain ⟨⟨rfl, hv⟩, hanswer⟩ := hs
    obtain ⟨r, next, hr, -, hversion, hleft, hsup⟩ := saved_of_meets he hcall hanswer
    exact ⟨r, _, hr, hversion v hv, hleft, by rw [hsup.version, hversion v hv]⟩
  · cases hs

/-- Every version below the one a document has was committed, in some state. -/
def VersionsBelow (states : List Database) (s : Database) : Prop :=
  ∀ j r, s.content j = some r → 1 ≤ r.version ∧
    ∀ v, 1 ≤ v → v ≤ r.version → ∃ t ∈ states, ∃ q, t.content j = some q ∧ q.version = v

theorem VersionsBelow.mono {states states' : List Database} {s : Database}
    (h : VersionsBelow states s) (hsub : ∀ t ∈ states, t ∈ states') :
    VersionsBelow states' s := by
  intro j r hr
  obtain ⟨hpos, hall⟩ := h j r hr
  refine ⟨hpos, fun v hv hle => ?_⟩
  obtain ⟨t, ht, hq⟩ := hall v hv hle
  exact ⟨t, hsub t ht, hq⟩

/-- One commit adds one version at most. -/
theorem VersionsBelow.commit {states : List Database}
    (he : e.Meets (contentsDiscipline AnyOrder)) (h : VersionsBelow states e.found) :
    VersionsBelow (e.left :: states) e.left := by
  intro j r' hr'
  have hself : ∀ v, v = r'.version →
      ∃ t ∈ e.left :: states, ∃ q, t.content j = some q ∧ q.version = v := fun v hv =>
    ⟨e.left, List.mem_cons_self, r', hr', hv.symm⟩
  cases hr : e.found.content j with
  | none =>
    have hversion : r'.version = 1 := by
      cases Post.change he.post j with
      | untouched content _ _ => rw [hr', hr] at content; cases content
      | created r _ _ _ _ after version =>
        rw [hr'] at after
        exact Option.some.inj after ▸ version
      | written _ _ before _ _ _ => rw [hr] at before; cases before
      | detached _ _ _ _ _ before _ _ => rw [hr] at before; cases before
      | deleted _ _ _ _ _ before _ => rw [hr] at before; cases before
    exact ⟨by omega, fun v hv hle => hself v (by omega)⟩
  | some r =>
    obtain ⟨hpos, hall⟩ := h j r hr
    have hstep : r'.version = r.version ∨ r'.version = r.version + 1 := by
      rcases change_row he hr hr' with rfl | hs | ⟨_, _, _, -, -, rfl⟩
      · exact .inl rfl
      · exact .inr hs.version
      · exact .inl rfl
    refine ⟨by omega, fun v hv hle => ?_⟩
    by_cases hlast : v = r'.version
    · exact hself v hlast
    · obtain ⟨t, ht, hq⟩ := hall v hv (by omega)
      exact ⟨t, List.mem_cons_of_mem _ ht, hq⟩

theorem versions_consecutive {first db : Database} {log : List (Committed Database Call _)}
    (hfirst : ∀ j, first.content j = none) (hlinked : Linked first log db)
    (hlog : ∀ e ∈ log, e.Meets (contentsDiscipline AnyOrder)) :
    ∀ s ∈ db :: log.map (·.found), VersionsBelow (db :: log.map (·.found)) s := by
  induction log generalizing db with
  | nil =>
    obtain rfl : db = first := hlinked
    intro s hs j r hr
    obtain rfl := List.mem_singleton.mp hs
    rw [hfirst] at hr
    cases hr
  | cons e rest ih =>
    obtain ⟨rfl, hrest⟩ := hlinked
    have ih := ih hrest fun e' he' => hlog e' (List.mem_cons_of_mem _ he')
    intro s hs
    rcases List.mem_cons.mp hs with rfl | hs
    · exact (ih e.found List.mem_cons_self).commit (hlog e List.mem_cons_self)
    · exact (ih s hs).mono fun t ht => List.mem_cons_of_mem _ ht

/-- **Optimistic concurrency and faithful history**, in every run. -/
theorem optimistic_concurrency {I : Type} [DecidableEq I] {«media» : List MediaRow}
    {m : ContentMachine I}
    (hrun : Run engine program (fun _ => True) (.start (Database.empty «media»)) m) :
    FaithfulHistory m where
  once j v := by
    have hlog := run_log (empty_inv «media») hrun
    have hpair := hrun.linked.entries Progress.trans (fun e he => meets_progress (hlog e he))
      fun e he => .refl (hlog e he).left.constraints
    refine atMostOne_of_pairwise hpair fun later hlater earlier hearlier hsave hsave' hprogress => ?_
    obtain ⟨r, _, hr, hv, -, -⟩ := savedFrom_version (hlog later hlater) hsave
    obtain ⟨_, q, -, -, hq, hqv⟩ := savedFrom_version (hlog earlier hearlier) hsave'
    have := hprogress.version j q r hq hr
    omega
  consecutive :=
    versions_consecutive (fun _ => rfl) hrun.linked (run_log (empty_inv «media») hrun)
  recorded e he hwrites j r hr := by
    have hmeets := run_log (empty_inv «media») hrun e he
    cases Post.change hmeets.post j with
    | untouched content revisions references =>
      exact .inl ⟨content.trans hr, revisions, references⟩
    | created _ _ _ _ before _ _ => rw [hr] at before; cases before
    | written current next before after superseded _ =>
      obtain rfl := Option.some.inj (hr.symm.trans before)
      exact .inr ⟨next, after, superseded⟩
    | detached _ _ _ _ hcall _ _ _ => rw [hcall] at hwrites; cases hwrites
    | deleted _ _ _ _ hcall _ _ => rw [hcall] at hwrites; cases hwrites
  saved e he type j patch options stamps hcall hanswer :=
    saved_of_meets (run_log (empty_inv «media») hrun e he) hcall hanswer
  refused i r hr href a m' ha hs := by
    obtain rfl := Machine.step_refused hr href ha hs
    exact ⟨rfl, rfl, m.finish_self i⟩
  unchanged a m' hs hno := by
    rcases Machine.step_db hs with h | ⟨i, _, _, _, ha, -⟩
    · exact h
    · exact absurd ha (hno i)

/-- Two saves that both expect version 1 of a page: the second waits for the first,
and is refused. -/
def savedTwice : List (Action Call Nat) :=
  wholeCall 0 (createPage (emptyPage "about" none) 1 none) 4 ++
    [.begin_ 1 (savePage 1 { title := some "Us" } (some 1) 500),
      .begin_ 2 (savePage 1 { title := some "Them" } (some 1) 501)] ++
    List.replicate 7 (.advance 1) ++ [.commit 1, .advance 2]

theorem optimistic_concurrency_saved_twice : ∃ m : ContentMachine Nat,
    (Machine.start (Database.empty [])).steps engine program savedTwice = some m ∧
    FaithfulHistory m ∧ (∃ r, m.running 2 = some r ∧ r.Refused engine m.db) ∧
    (m.log.filter (savedFrom 1 1)).length = 1 := by
  have heval : ((Machine.start (Database.empty []) : ContentMachine Nat).steps engine program
      savedTwice).any (fun m => (m.log.filter (savedFrom 1 1)).length = 1 &&
        (m.running 2).any fun r => match r.rest with | .raise _ => true | _ => false) = true := by
    decide +kernel
  obtain ⟨m, hm, hrun, hcheck⟩ := Run.of_eval heval
  simp only [Bool.and_eq_true, decide_eq_true_eq, Option.any_eq_true] at hcheck
  obtain ⟨hone, r, hr, hraise⟩ := hcheck
  refine ⟨m, hm, optimistic_concurrency hrun, ⟨r, hr, ?_⟩, hone⟩
  split at hraise
  · exact .inl ⟨_, ‹_›⟩
  · cases hraise

end PressLabz
