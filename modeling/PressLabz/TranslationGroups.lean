import PressLabz.VersionHistory

/-! # Translation groups

A group is opened with its first document and deleted with its last one, and the
lock of its row orders everything that changes its members in between.  So in
every committed state a group has a member, its members are of its type, and no
two of them are in one language (`GroupsSound`).

Whoever joins a group was authorized against the members it had.  They are read
under the lock, so they are the members the join commits beside (`Joined`).
-/
namespace PressLabz
open Forest RowLocks

/-- What every committed state says of its groups. -/
structure GroupsSound (db : Database) : Prop where
  /-- No group is empty. -/
  inhabited : ∀ g ∈ db.groups, ∃ r ∈ db.contents, r.translationGroupId = g.id
  typed : ∀ g ∈ db.groups, ∀ r ∈ db.contents, r.translationGroupId = g.id → r.type = g.type
  /-- A group has one document of a language. -/
  locale : ∀ a ∈ db.contents, ∀ b ∈ db.contents,
    a.translationGroupId = b.translationGroupId → a.locale = b.locale → a = b

/-! ## No group is empty -/

/-- A group that is there has a member. -/
def Inhabited (db : Database) : Prop :=
  ∀ g ∈ db.groups, ∃ j r, db.content j = some r ∧ r.translationGroupId = g.id

section Inhabited
variable {found left : Database}

theorem inhabited_empty («media» : List MediaRow) : Inhabited (Database.empty «media») :=
  fun _ hg => absurd hg List.not_mem_nil

/-- A write that leaves the groups and whose they are leaves no group empty. -/
theorem Inhabited.same (h : Inhabited found) (hgroups : ∀ g ∈ left.groups, g ∈ found.groups)
    (hmembers : ∀ g j, (∃ r, found.content j = some r ∧ r.translationGroupId = g) →
      ∃ r, left.content j = some r ∧ r.translationGroupId = g) : Inhabited left := by
  intro g hg
  obtain ⟨j, hj⟩ := h g (hgroups g hg)
  exact ⟨j, hmembers g.id j hj⟩

theorem inhabited_published (stamps : Stamps) {claimed : List ContentRow}
    (hnodup : (claimed.map (·.id)).Nodup)
    (hclaimed : ∀ r ∈ claimed, found.content r.id = some r) (h : Inhabited found) :
    Inhabited (claimed.foldl (·.published stamps) found) := by
  refine publishEach_kept stamps (fun db current hcur hdb => ?_) hnodup hclaimed h
  exact hdb.same (fun _ hg => hg) fun g j hj => (members_superseded hcur g j).mpr hj

/-- A new document is a member of the group it opens. -/
theorem inhabited_created {input : CreateContentInput} {fresh : Fresh}
    (hnew : found.content fresh.id = none) (h : Inhabited found) :
    Inhabited (found.created input fresh) := by
  have hself : (found.created input fresh).content fresh.id =
      some (input.row fresh (input.groupId fresh)) := by rw [content_created, if_pos rfl]
  have hold : ∀ g ∈ found.groups,
      ∃ j r, (found.created input fresh).content j = some r ∧ r.translationGroupId = g.id := by
    intro g hg
    obtain ⟨j, r, hr, hrg⟩ := h g hg
    have hne : j ≠ fresh.id := by
      rintro rfl
      rw [hnew] at hr
      cases hr
    exact ⟨j, r, (content_created_of_ne hne).trans hr, hrg⟩
  intro g hg
  have hg : g ∈ (found.opened input fresh).groups := hg
  rw [Database.opened] at hg
  split at hg
  · rename_i hjoin
    rcases List.mem_cons.mp hg with rfl | hg
    · exact ⟨fresh.id, _, hself, by simp [CreateContentInput.row, CreateContentInput.groupId, hjoin]⟩
    · exact hold g hg
  · exact hold g hg

/-- The group of the last member goes with it. -/
theorem inhabited_removed {current : ContentRow} (hc : found.Constraints)
    (hcur : found.content current.id = some current) (h : Inhabited found) :
    Inhabited (found.removed current) := by
  intro g hg
  have hgroups : g ∈ found.groups ∧ (g.id = current.translationGroupId →
      ((found.withoutDocument current.id).membersOf current.translationGroupId).isEmpty =
        false) := by
    rw [Database.removed] at hg
    split at hg
    · obtain ⟨hg, hne⟩ := List.mem_filter.mp hg
      exact ⟨hg, fun heq => absurd heq (of_decide_eq_true hne)⟩
    · rename_i hsome
      exact ⟨hg, fun _ => Bool.eq_false_iff.mpr hsome⟩
  obtain ⟨hg, hleft⟩ := hgroups
  by_cases hid : g.id = current.translationGroupId
  · -- Somebody else was a member, and still is.
    have hother : ¬ ∀ j, j ≠ current.id →
        ¬ ∃ r, found.content j = some r ∧ r.translationGroupId = current.translationGroupId :=
      fun hnone => by simp [(members_left hc).mpr hnone] at hleft; exact hleft hid
    push Not at hother
    obtain ⟨j, hj, r, hr, hrg⟩ := hother
    refine ⟨j, _, by rw [content_removed, content_withoutDocument, if_neg hj, hr,
      Option.map_some], ?_⟩
    rw [hid, ← hrg]
    split
    · rfl
    · rfl
  · obtain ⟨j, hj⟩ := h g hg
    exact ⟨j, (members_removed_of_ne hcur hid j).mpr hj⟩

/-- **No commit leaves a group empty.** -/
theorem Post.inhabited {call : Call} {answer : List ContentRow} (hc : found.Constraints)
    (hpost : Post call answer found left) (h : Inhabited found) : Inhabited left := by
  cases call with
  | createContent input fresh =>
    obtain ⟨-, hnew, -, rfl⟩ := hpost
    exact inhabited_created hnew h
  | updateContent type docId patch options stamps =>
    rcases hpost with ⟨-, rfl⟩ | ⟨current, next, hcur, -, -, rfl⟩
    · exact h
    · obtain rfl : current.id = docId := Database.id_of_content hcur
      exact h.same (fun _ hg => hg) fun g j hj => (members_superseded hcur g j).mpr hj
  | deleteContent docId authorize =>
    rcases hpost with ⟨-, rfl⟩ | ⟨current, hcur, -, -, rfl⟩
    · exact h
    · obtain rfl : current.id = docId := Database.id_of_content hcur
      exact inhabited_removed hc hcur h
  | publishDueContent now stamps =>
    obtain ⟨claimed, hnodup, hclaimed, -, rfl⟩ := hpost
    exact inhabited_published stamps hnodup (fun r hr => (hclaimed r hr).1) h

/-- Groups that have members are sound, where the constraints are met. -/
theorem GroupsSound.of_inhabited (hc : found.Constraints) (h : Inhabited found) :
    GroupsSound found where
  inhabited g hg := by
    obtain ⟨j, r, hr, hrg⟩ := h g hg
    exact ⟨r, Database.mem_of_content hr, hrg⟩
  typed g hg r hr hrg := Database.type_of_group hc hg hr hrg
  locale a ha b hb hgroup hlocale :=
    Rows.eq_of_unique (fun _ _ h => ⟨h.1.symm, h.2.symm⟩) hc.contents_group_locale_uq ha hb
      ⟨hgroup, hlocale⟩

end Inhabited

/-! ## Who was asked -/

/-- A join was authorized against the members of its group, each of them still a
member: `members` are the rows that were passed to `authorizeJoin`. -/
structure Authorized (join : JoinGroup) (members : List ContentRow) (db : Database) : Prop where
  accepted : join.authorizeJoin members = true
  kept : ∀ member ∈ members,
    ∃ r, db.content member.id = some r ∧ r.translationGroupId = join.translationGroupId
  all : ∀ j r, db.content j = some r → r.translationGroupId = join.translationGroupId →
    j ∈ members.map (·.id)

/-- What a committed join found. -/
def Joined (call : Call) (found : Database) : Prop :=
  ∀ input fresh join, call = .createContent input fresh → input.join = some join →
    ∃ members, Authorized join members found

/-- A call that is no join has joined nothing. -/
theorem joined_of_not_join {call : Call} {found : Database}
    (h : ∀ input fresh join, call = .createContent input fresh → input.join ≠ some join) :
    Joined call found :=
  fun input fresh join hcall hjoin => absurd hjoin (h input fresh join hcall)

section Joins
variable {db : Database} {held : Set RowKey} {own : Database → Database}

/-- The members that were read under the lock are the members from then on. -/
theorem Authorized.of_read {call : Call} {join : JoinGroup} {read : Database}
    (hr : RelyOn AnyOrder call held read db) (hread : read.Constraints)
    (hgroup : read.group join.translationGroupId ≠ none)
    (hheld : .group join.translationGroupId ∈ held)
    (haccepted : join.authorizeJoin (read.membersOf join.translationGroupId) = true) :
    Authorized join (read.membersOf join.translationGroupId) db := by
  obtain ⟨g, hg⟩ := Option.ne_none_iff_exists'.mp hgroup
  have hframe : FrameGroup join.translationGroupId read db :=
    hr.frame (.group join.translationGroupId) hheld ⟨g, hg⟩
  refine ⟨haccepted, fun member hmember => ?_, fun j r hj hrg => ?_⟩
  · obtain ⟨hmem, hgroup⟩ := List.mem_filter.mp hmember
    exact (hframe.members member.id).mpr
      ⟨member, Database.content_of_mem hread hmem, of_decide_eq_true hgroup⟩
  · obtain ⟨r', hr', hrg'⟩ := (hframe.members j).mp ⟨r, hj, hrg⟩
    have hmem : r' ∈ read.membersOf join.translationGroupId :=
      List.mem_filter.mpr ⟨Database.mem_of_content hr', decide_eq_true hrg'⟩
    exact Database.id_of_content hr' ▸ List.mem_map_of_mem hmem

theorem anyOrder (a b : RowKey) : (contentsDiscipline AnyOrder).before a b := trivial

/-- A transaction of which nothing is asked satisfies its precondition. -/
theorem pre_nothing {call : Call} {γ : Type} {Q : γ → Set RowKey → (Database → Database) →
    Database → Prop} (hQ : ∀ a held own db, Q a held own db) {x : Transaction γ}
    (hinv : ContentsInv db) (hside : (contentsDiscipline AnyOrder).side call db) :
    pre AnyOrder call Q x held own db :=
  wp_mono (fun a held own db _ => hQ a held own db)
    (wp_relied anyOrder (Rely.refl hinv hside) subset_rfl)

theorem pre_joined {input : CreateContentInput} {fresh : Fresh} (hinv : ContentsInv db)
    (hside : (contentsDiscipline AnyOrder).side (.createContent input fresh) db) :
    pre AnyOrder (.createContent input fresh)
      (fun _ held _ db => ∀ db', RelyOn AnyOrder (.createContent input fresh) held db db' →
        Joined (.createContent input fresh) db')
      (program (.createContent input fresh)) ∅ id db := by
  cases hjoin : input.join with
  | none =>
    refine pre_nothing (fun _ _ _ _ _ _ => joined_of_not_join ?_) hinv hside
    rintro input' fresh' join ⟨⟩ hsome
    rw [hjoin] at hsome
    cases hsome
  | some join =>
    rw [program, createContent, Tx.bind_assoc, CreateContentInput.group, hjoin]
    simp only [joinGroup, Tx.bind_assoc]
    refine wp_forUpdate (by simp) (fun db1 hr1 hp => ?_) (fun db1 hr1 hp => ?_)
    · obtain ⟨group, hgroup⟩ := Option.isSome_iff_exists.mp hp
      rw [id_eq] at hgroup
      simp only [id_eq, hgroup]
      split
      · exact wp_throw_bind
      · rw [Tx.bind_assoc]
        refine wp_select fun db2 hr2 => ?_
        split
        · exact wp_throw_bind
        · rename_i haccepted
          split
          · exact wp_throw_bind
          · -- From here on the lock is held, whatever else is done.
            refine wp_mono (fun _ held _ db h db' hr => ?_)
              (wp_relied anyOrder (Rely.refl hr2.inv hr2.side) subset_rfl)
            obtain ⟨hsub, hrely⟩ := h
            rintro input' fresh' join' ⟨⟩ hsome
            obtain rfl := Option.some.inj (hjoin.symm.trans hsome)
            have hheld : .group join.translationGroupId ∈
                insert (.group join.translationGroupId) (∅ : Set RowKey) := Set.mem_insert _ _
            have hgroup2 := (Rely.group hr2 hheld hgroup).group
            refine ⟨_, Authorized.of_read (hrely.trans (hr.weaken hsub)) hr2.inv.constraints ?_
              hheld (by simpa using haccepted)⟩
            rw [hgroup2, hgroup]
            exact Option.some_ne_none group
    · have hnone : db1.group join.translationGroupId = none := Option.isNone_iff_eq_none.mp
        (by simpa [engine, Database.present] using hp)
      simp only [id_eq, hnone]
      exact wp_throw_bind

/-- The discipline of the four operations, with what a join finds. -/
abbrev joinsDiscipline : Discipline Database RowKey Call (List ContentRow) :=
  (contentsDiscipline AnyOrder).withPost fun call answer found left =>
    Post call answer found left ∧ Joined call found

theorem verified_joins : Verified joinsDiscipline engine program := by
  refine (verified AnyOrder).withPost fun call db hinv hside => ?_
  cases call with
  | createContent input fresh =>
    exact wp_mono (fun _ _ _ _ h db' hr hpost => ⟨hpost, h db' hr⟩) (pre_joined hinv hside)
  | updateContent | deleteContent | publishDueContent =>
    refine pre_nothing (fun _ _ _ _ _ _ hpost => ⟨hpost, joined_of_not_join ?_⟩) hinv hside
    rintro input fresh join ⟨⟩

end Joins

/-! ## Runs -/

/-- The group a committed join names was there. -/
theorem group_of_created {found : Database} {input : CreateContentInput} {fresh : Fresh}
    {join : JoinGroup} (hjoin : input.join = some join)
    (hc : (found.created input fresh).Constraints) :
    ∃ g, found.group join.translationGroupId = some g := by
  have hrow : (found.created input fresh).content fresh.id =
      some (input.row fresh (input.groupId fresh)) := by rw [content_created, if_pos rfl]
  obtain ⟨g, hg⟩ := Database.group_of_content hc hrow
  have hgroups : (found.created input fresh).groups = found.groups := by
    rw [Database.created, Database.opened, hjoin]
    rfl
  have hid : (input.row fresh (input.groupId fresh)).translationGroupId =
      join.translationGroupId := by
    rw [CreateContentInput.row, CreateContentInput.groupId, hjoin]
  rw [hid, Database.group, hgroups] at hg
  exact ⟨g, hg⟩

/-- What runs do to groups. -/
structure GroupsKept {I : Type} [DecidableEq I] (m : ContentMachine I) : Prop where
  states : ∀ db ∈ m.states, GroupsSound db
  /-- A creation that names a group that is not there commits nothing. -/
  unknown : ∀ i r input fresh join, m.running i = some r → r.call = .createContent input fresh →
    input.join = some join → m.db.group join.translationGroupId = none →
    ∀ a m', a.actor = i → m.step engine program a = some m' → m'.db = m.db ∧ m'.log = m.log
  /-- Whoever was asked about a join is a member of the group still, in the state the
  join found and in the state it left. -/
  joins : ∀ e ∈ m.log, ∀ input fresh join, e.call = .createContent input fresh →
    input.join = some join → (∃ g, e.found.group join.translationGroupId = some g) ∧
      ∃ members, Authorized join members e.found ∧ ∀ member ∈ members,
        ∃ r, e.left.content member.id = some r ∧
          r.translationGroupId = join.translationGroupId

section
variable {I : Type} [DecidableEq I] {db : Database} {m : ContentMachine I}

omit [DecidableEq I] in
theorem sides_joins (m : ContentMachine I) : Sides joinsDiscipline m := sides_anyOrder m

omit [DecidableEq I] in
theorem start_joins (hinv : ContentsInv db) :
    Sound joinsDiscipline engine (Machine.start db : ContentMachine I) :=
  .quiet (m := .start db) hinv (fun _ => rfl) fun _ => rfl

/-- Whoever was asked is a member beside the new document. -/
theorem Authorized.created {found : Database} {input : CreateContentInput} {fresh : Fresh}
    {join : JoinGroup} {members : List ContentRow} (h : Authorized join members found)
    (hnew : found.content fresh.id = none) : ∀ member ∈ members,
      ∃ r, (found.created input fresh).content member.id = some r ∧
        r.translationGroupId = join.translationGroupId := by
  intro member hmember
  obtain ⟨r, hr, hrg⟩ := h.kept member hmember
  have hne : member.id ≠ fresh.id := by
    intro heq
    rw [heq, hnew] at hr
    cases hr
  exact ⟨r, (content_created_of_ne hne).trans hr, hrg⟩

/-- **Translation groups.**  In every run, in every committed state, every group has
a member, its members are of its type and no two are in one language; a creation
that names no group of the database changes nothing; and a join commits beside the
members it was authorized against. -/
theorem translation_groups (hinv : ContentsInv db) (hgroups : GroupsSound db)
    (hrun : Run engine program (fun _ => True) (.start db) m) : GroupsKept m where
  states := by
    have hinhabited : Inhabited db := fun g hg => by
      obtain ⟨r, hr, hrg⟩ := hgroups.inhabited g hg
      exact ⟨r.id, r, Database.content_of_mem hinv.constraints hr, hrg⟩
    have hall := hrun.linked.invariant hinhabited fun e he =>
      have hmeets := run_log hinv hrun e he
      Post.inhabited hmeets.found.constraints hmeets.post
    exact fun s hs => .of_inhabited (run_states hinv hrun s hs).constraints (hall s hs)
  unknown i r input fresh join hr hcall hjoin hnone a m' ha hs := by
    rcases Machine.step_db hs with hsame | ⟨j, call, answer, own, rfl, hj, hvalid, -, -⟩
    · exact hsame
    · -- It would have found the group.
      exfalso
      obtain rfl : j = i := ha
      obtain rfl := Option.some.inj (hr.symm.trans hj)
      obtain rfl : call = .createContent input fresh := hcall
      have hsound := (verified AnyOrder).holds (fun m _ => sides_anyOrder m)
        (start_sound AnyOrder hinv) hrun
      obtain ⟨hleft, -, -, hpost⟩ :=
        hsound.rest j _ hj m.db (.refl hsound.inv (sides_anyOrder m j _ hj)) hvalid
      obtain ⟨-, -, -, heq⟩ := hpost
      rw [heq] at hleft
      obtain ⟨g, hg⟩ := group_of_created hjoin hleft.constraints
      rw [hnone] at hg
      cases hg
  joins e he input fresh join hcall hjoin := by
    have hmeets := verified_joins.log (fun m _ => sides_joins m) (start_joins hinv) hrun
      (fun _ he => absurd he List.not_mem_nil) e he
    obtain ⟨hpost, hjoined⟩ := hmeets.post
    obtain ⟨members, hmembers⟩ := hjoined input fresh join hcall hjoin
    rw [hcall] at hpost
    obtain ⟨-, hnew, -, hleft⟩ := hpost
    have hc : (e.found.created input fresh).Constraints :=
      hleft ▸ ContentsInv.constraints hmeets.left
    exact ⟨group_of_created hjoin hc, members, hmembers, hleft ▸ hmembers.created hnew⟩

end

/-! ### A page and its translation -/

theorem groupsSound_empty («media» : List MediaRow) : GroupsSound (Database.empty «media») :=
  .of_inhabited (empty_inv «media»).constraints (inhabited_empty «media»)

/-- The creation of a page that joins a group. -/
def joinPage (slug locale : String) (groupId docId : Uuid) : Call :=
  .createContent ⟨pageType fun _ => false, locale, none, emptyPage slug none,
    some ⟨groupId, fun _ => true⟩⟩ ⟨docId, docId + 100, docId⟩

/-- A page, and a page that joins its group. -/
def translatedPage : List (Action Call Nat) :=
  wholeCall 1 (createPage (emptyPage "about" none) 1 none) 4 ++
    wholeCall 2 (joinPage "sobre" "pt" 101 2) 5

theorem translation_groups_translated : ∃ m : ContentMachine Nat,
    (Machine.start (Database.empty [])).steps engine program translatedPage = some m ∧
    (m.db.membersOf 101).map (·.id) = [2, 1] ∧ GroupsKept m := by
  have heval : ((Machine.start (Database.empty []) : ContentMachine Nat).steps engine program
      translatedPage).any (fun m => decide ((m.db.membersOf 101).map (·.id) = [2, 1])) = true := by
    decide +kernel
  obtain ⟨m, hm, hrun, hcheck⟩ := Run.of_eval heval
  exact ⟨m, hm, of_decide_eq_true hcheck,
    translation_groups (empty_inv []) (groupsSound_empty []) hrun⟩

end PressLabz
