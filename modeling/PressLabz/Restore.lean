import PressLabz.ContentPatch
import PressLabz.RevisionHistory

/-! # Restoring a revision

POST …/revisions/:revisionId/restore: a revision becomes a patch that names every field
(`stateOfRevision`), and goes through the write path of any other edit.  What keeps this
exact is that a revision is a row that once fitted its type (`Database.HistoryFits`), so
that the type's rules change nothing of it a second time; and a restore is undone by
restoring what it superseded.
-/
namespace PressLabz
open RowLocks

/-- Every revision fits the type of the document it is of. -/
def Database.HistoryFits (isSafeHref : String → Bool) (db : Database) : Prop :=
  ∀ v ∈ db.revisions, ∀ r, db.content v.contentId = some r →
    ∃ options ∈ builtinOptions, r.type = options.name ∧ options.Fits isSafeHref v.toColumns

section Commit
variable {p : Platform} {e : Committed Database Call (List ContentRow)} {v : ContentRevisionRow}

/-- A revision that a commit leaves was there before, or records the row that was found. -/
theorem Post.revision {found left : Database} {call : Call} {answer : List ContentRow}
    (h : Post call answer found left) (hv : v ∈ left.revisions) :
    v ∈ found.revisions ∨ ∃ r, found.content v.contentId = some r ∧ Records v r := by
  have hmem : ∀ {db : Database}, v ∈ db.revisionsOf v.contentId → v ∈ db.revisions :=
    fun h => (List.mem_filter.mp h).1
  have hown : v ∈ left.revisionsOf v.contentId := List.mem_filter.mpr ⟨hv, decide_eq_true rfl⟩
  cases h.history v.contentId with
  | kept revisions _ => exact .inl (hmem (revisions ▸ hown))
  | created revisions _ _ => exact .inl (hmem (revisions ▸ hown))
  | superseded current _ stamps _ before _ _ revisions =>
    rw [revisions] at hown
    rcases List.mem_cons.mp (List.mem_filter.mp hown).1 with hnew | hold
    · refine .inr ⟨current, before, ?_⟩
      rw [hnew]
      exact ⟨rfl, rfl, rfl⟩
    · exact .inl (hmem hold)
  | deleted _ revisions =>
    rw [revisions] at hown
    cases hown

/-- **Every commit leaves a history that fits.** -/
theorem meets_historyFits (he : e.Meets (contentsDiscipline AnyOrder))
    (hfits : e.found.FitsTypes p.isSafeHref) (h : e.found.HistoryFits p.isSafeHref) :
    e.left.HistoryFits p.isSafeHref := by
  intro v hv r' hr'
  have htype : ∀ r, e.found.content v.contentId = some r → r'.type = r.type := fun r hr =>
    (he.always.same he.left.constraints hr hr').type
  rcases he.post.revision hv with hold | ⟨r, hr, hrecords⟩
  · obtain ⟨row, hrow, hid⟩ := he.found.constraints.content_revisions_content_fk v hold
    have hr := hid ▸ Database.content_of_mem he.found.constraints hrow
    obtain ⟨options, hoptions, hname, hv⟩ := h v hold row hr
    exact ⟨options, hoptions, (htype row hr).trans hname, hv⟩
  · obtain ⟨options, hoptions, hname, hcolumns⟩ := hfits v.contentId r hr
    exact ⟨options, hoptions, (htype r hr).trans hname, hrecords.columns ▸ hcolumns⟩

end Commit

theorem Nullish.toOption_ofNullable {α : Type} (column : Option α) :
    (Nullish.ofNullable column).toOption = column := by
  cases column with
  | none => rfl
  | some _ => rfl

/-- A field that a restore names is the field it becomes, a null included. -/
theorem Nullish.over_ofNullable {α : Type} (column : Option α) (state : Nullish α) :
    (Nullish.ofNullable column).over state = .ofNullable column := by
  cases column with
  | none => rfl
  | some _ => rfl

/-- **A revision that fits is reproduced** over any row. -/
theorem ContentTypeOptions.Fits.restored {isSafeHref : String → Bool}
    {options : ContentTypeOptions} {v : ContentRevisionRow}
    (h : options.Fits isSafeHref v.toColumns) (row : ContentRow) :
    options.stateSchema isSafeHref ((stateOfRevision v).over row.toState) = some v.state := by
  -- the type's rules see the merge as they would see the row the revision records
  have hrow : options.stateSchema isSafeHref { row with toColumns := v.toColumns }.toState =
      some v.state := ContentTypeOptions.Fits.reproduced h
  rw [← hrow]
  simp only [ContentTypeOptions.stateSchema, Patch.over, stateOfRevision, ContentRow.toState,
    Option.getD_some, Nullish.over_ofNullable, Nullish.toOption_ofNullable,
    Nullish.toOption_ofColumn]

section Handled
variable {p : Platform} {servesLocale : String → Bool} {actor : Actor} {moment : Moment}
  {db : Database} {name : String} {id rid : Uuid} {body : Meta} {call : Call}

/-- A request to restore is accepted about a document and a revision of it, and asks for the
state of that revision over the version it names. -/
theorem WriteRequest.handle_restore
    (h : (WriteRequest.restore name (some (id, rid)) body).handle p servesLocale actor moment db =
      .ok call) :
    ∃ options ∈ builtinOptions, ∃ version row v, db.content id = some row ∧
      row.type = options.name ∧ db.findRevision rid = some v ∧ v.contentId = id ∧
      call = .updateContent (defineContentType p.isSafeHref options) id (stateOfRevision v)
        { expectedVersion := some version
          derive := none
          authorize := some (mayWrite actor (defineContentType p.isSafeHref options)) }
        moment.stamps := by
  rw [WriteRequest.handle, WriteRequest.parse, ContentRequest.handle, handleRestore] at h
  obtain ⟨type, htype, hcall⟩ := bind_eq_ok h
  obtain ⟨options, hmem, -, rfl⟩ := resolveType_options htype
  split at hcall
  · cases hcall
  · cases hcall
  · rename_i docId revisionId version hids _
    obtain ⟨rfl, rfl⟩ := Prod.mk.inj (Option.some.inj hids)
    split at hcall
    · cases hcall
    · rename_i row hrow
      -- the document is of the type of the route, and the revision of the document
      obtain ⟨hrow, hsame⟩ := Option.filter_eq_some_iff.mp hrow
      obtain rfl := Database.id_of_content hrow
      split at hcall
      · cases hcall
      · split at hcall
        · cases hcall
        · rename_i v hv
          obtain ⟨hv, hown⟩ := Option.filter_eq_some_iff.mp hv
          cases hcall
          exact ⟨options, hmem, version, row, v, hrow, of_decide_eq_true hsame, hv,
            of_decide_eq_true hown, rfl⟩

end Handled

section Runs
variable {I : Type} [DecidableEq I] {«media» : List MediaRow} {m : ContentMachine I} {p : Platform}
  {servesLocale : String → Bool}

/-- **Every committed state of the API** holds histories that fit their documents. -/
theorem run_historyFits
    (hrun : Run engine program (fun _ => True) (.start (Database.empty «media»)) m)
    (hissued : ∀ e ∈ m.log, Issued p servesLocale e.call) :
    ∀ db ∈ m.states, db.HistoryFits p.isSafeHref := by
  have hfits := run_fitsTypes hrun hissued
  refine hrun.linked.invariant (fun _ hv => nomatch hv) fun e he => ?_
  exact meets_historyFits (run_log (empty_inv «media») hrun e he)
    (hfits _ (List.mem_cons_of_mem _ (List.mem_map_of_mem he)))

variable (m p servesLocale) in
/-- A committed restore of a revision of the document: it was asked for over a committed
state that holds the revision, and it left the row. -/
structure Restores (e : Committed Database Call (List ContentRow)) (id : Uuid)
    (revision : ContentRevisionRow) (row : ContentRow) : Prop where
  committed : e ∈ m.log
  asked : ∃ name body actor moment, ∃ read ∈ m.states,
    read.findRevision revision.id = some revision ∧
    (WriteRequest.restore name (some (id, revision.id)) body).handle p servesLocale actor moment
      read = .ok e.call
  accepted : e.answer = [row]

/-- A restore that is accepted leaves the fields of its revision, and records what it found. -/
theorem restores_spec
    (hrun : Run engine program (fun _ => True) (.start (Database.empty «media»)) m)
    (hissued : ∀ e ∈ m.log, Issued p servesLocale e.call)
    {e : Committed Database Call (List ContentRow)} {id : Uuid} {revision : ContentRevisionRow}
    {row : ContentRow} (h : Restores m p servesLocale e id revision row) :
    e.left.content id = some row ∧ row.toColumns = revision.toColumns ∧
      revision.contentId = id ∧
      ∃ current, e.found.content id = some current ∧
        ∀ v ∈ e.left.revisionsOf id, v ∉ e.found.revisionsOf id → Records v current := by
  obtain ⟨name, body, actor, moment, read, hread, hfind, hhandle⟩ := h.asked
  obtain ⟨options, hoptions, version, before, v, hbefore, htype, hv, hown, hcall⟩ :=
    WriteRequest.handle_restore hhandle
  obtain rfl := Option.some.inj (hfind.symm.trans hv)
  have hpost := (run_log (empty_inv «media») hrun e h.committed).post
  rw [hcall] at hpost
  rcases hpost with ⟨hnone, -⟩ | ⟨current, next, hcur, hnext, hanswer, hleft⟩
  · cases hnone.symm.trans h.accepted
  · obtain rfl : current.id = id := Database.id_of_content hcur
    obtain rfl : row = _ := List.singleton_inj.mp (h.accepted.symm.trans hanswer)
    -- the revision was read from a committed state, where it fits the type that judges it
    obtain ⟨own, hownOptions, hownName, hfits⟩ :=
      run_historyFits hrun hissued read hread revision (Rows.mem_of_find hfind) before
        (hown.symm ▸ hbefore)
    obtain rfl : own = options :=
      builtinOptions_inj hownOptions hoptions (hownName.symm.trans htype)
    have hschema : own.stateSchema p.isSafeHref ((stateOfRevision revision).over current.toState) =
        some next := nextState_schema hnext
    obtain rfl : revision.state = next := Option.some.inj ((hfits.restored current).symm.trans hschema)
    refine ⟨hleft ▸ content_updated hcur, revision.state_toColumns, hown, current, hcur, ?_⟩
    intro new hnew hold
    rw [hleft, show (e.found.updated _ current _ moment.stamps).revisionsOf current.id = _ from
      revisionsOf_superseded (w := revision.state.write current moment.stamps)] at hnew
    rcases List.mem_cons.mp (List.mem_filter.mp hnew).1 with rfl | hthere
    · exact ⟨rfl, rfl, rfl⟩
    · exact absurd hthere hold

/-- What a restore is in a run of the API. -/
structure RestoresExactly (p : Platform) (servesLocale : String → Bool) (m : ContentMachine I) :
    Prop where
  /-- The document has the fields of the revision, the empty ones included. -/
  exact_ : ∀ e id revision row, Restores m p servesLocale e id revision row →
    e.left.content id = some row ∧ row.toColumns = revision.toColumns
  /-- The revision that a restore wrote brings back what the restore found. -/
  undone : ∀ e id revision row, Restores m p servesLocale e id revision row →
    ∃ before, e.found.content id = some before ∧
      ∀ e' id' written row', written ∈ e.left.revisionsOf id → written ∉ e.found.revisionsOf id →
        Restores m p servesLocale e' id' written row' →
        id' = id ∧ e'.left.content id = some row' ∧ row'.toColumns = before.toColumns

/-- **Restore is exact and undoable**, in every run of the requests and passes over a
database that began empty. -/
theorem restore_exact
    (hrun : Run engine program (fun _ => True) (.start (Database.empty «media»)) m)
    (hissued : ∀ e ∈ m.log, Issued p servesLocale e.call) :
    RestoresExactly p servesLocale m where
  exact_ e id revision row h := by
    obtain ⟨hleft, hcolumns, -⟩ := restores_spec hrun hissued h
    exact ⟨hleft, hcolumns⟩
  undone e id revision row h := by
    obtain ⟨-, -, -, before, hbefore, hrecords⟩ := restores_spec hrun hissued h
    refine ⟨before, hbefore, fun e' id' written row' hnew hold h' => ?_⟩
    have hwritten := hrecords written hnew hold
    obtain ⟨hleft, hcolumns, hid, -⟩ := restores_spec hrun hissued h'
    have hsame : id' = id := by
      rw [← hid, hwritten.contentId]
      exact Database.id_of_content hbefore
    exact ⟨hsame, hsame ▸ hleft, hcolumns.trans hwritten.columns⟩

end Runs

/-! ### A restore, and its restore -/

/-- The call of a request of the publisher, over the state it read; its revision gets the
id `500 + n`. -/
def requestIn (read : Database) (n : Nat) (request : WriteRequest) : Call :=
  match request.handle plainPlatform (fun _ => true) publisher
    { publisherMoment with stamps := ⟨fun _ => 500 + n, fun _ => 3, 3⟩ } read with
  | .ok call => call
  | .error _ => .publishDueContent 3 publisherMoment.stamps

theorem requestIn_issued (read : Database) (n : Nat) (request : WriteRequest) :
    Issued plainPlatform (fun _ => true) (requestIn read n request) := by
  rw [requestIn]
  split
  · rename_i call hcall
    exact .request request publisher _ read hcall
  · exact .pass _ _

/-- What a run from an empty database leaves. -/
def leftBy (actions : List (Action Call Nat)) : Database :=
  ((Machine.start (Database.empty []) : ContentMachine Nat).steps engine program actions).elim
    (Database.empty []) (·.db)

/-- A post, and its excerpt cleared. -/
def clearPost : List Call :=
  [requestIn (Database.empty []) 0 (.post "post" [("locale", .string "en"),
      ("slug", .string "hello"), ("title", .string "Hello"), ("excerpt", .string "First")]),
    requestIn (Database.empty []) 0 (.patch "post" (some 1)
      [("expectedVersion", .number 1), ("excerpt", .null)])]

/-- One call after the other. -/
def inTurn (calls : List Call) : List (Action Call Nat) :=
  (calls.zip [4, 7, 7, 7]).flatMap fun (call, n) => wholeCall 0 call n

/-- The excerpt brought back. -/
def restorePost : Call := requestIn (leftBy (inTurn clearPost)) 1
  (.restore "post" (some (1, 500)) [("expectedVersion", .number 2)])

/-- The excerpt cleared again, by restoring what that restore superseded. -/
def unrestorePost : Call := requestIn (leftBy (inTurn (clearPost ++ [restorePost]))) 2
  (.restore "post" (some (1, 501)) [("expectedVersion", .number 3)])

theorem restore_exact_post : ∃ m : ContentMachine Nat,
    (Machine.start (Database.empty [])).steps engine program
      (inTurn (clearPost ++ [restorePost, unrestorePost])) = some m ∧
    m.log.map (fun e => e.answer.map (·.excerpt)) =
      [[none], [some "First"], [none], [some "First"]] ∧
    RestoresExactly plainPlatform (fun _ => true) m := by
  have heval : ((Machine.start (Database.empty []) : ContentMachine Nat).steps engine program
      (inTurn (clearPost ++ [restorePost, unrestorePost]))).any (fun m =>
        decide (m.log.map (fun e => e.answer.map (·.excerpt)) =
          [[none], [some "First"], [none], [some "First"]])) = true := by decide +kernel
  have hcalls : ((Machine.start (Database.empty []) : ContentMachine Nat).steps engine program
      (inTurn (clearPost ++ [restorePost, unrestorePost]))).map (fun m => m.log.map (·.call)) =
      some (clearPost ++ [restorePost, unrestorePost]).reverse := rfl
  obtain ⟨m, hm, hrun, hcheck⟩ := Run.of_eval heval
  rw [hm] at hcalls
  refine ⟨m, hm, of_decide_eq_true hcheck, restore_exact hrun fun e he => ?_⟩
  have hmem : e.call ∈ (clearPost ++ [restorePost, unrestorePost]).reverse :=
    Option.some.inj hcalls ▸ List.mem_map_of_mem he
  simp only [clearPost, restorePost, unrestorePost, List.cons_append, List.nil_append,
    List.mem_reverse, List.mem_cons, List.not_mem_nil, or_false] at hmem
  rcases hmem with h | h | h | h
  all_goals exact h ▸ requestIn_issued _ _ _

end PressLabz
