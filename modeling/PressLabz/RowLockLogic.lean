import Mathlib.Data.Set.Insert
import Mathlib.Logic.Relation
import PressLabz.RowLocks

/-! # Reasoning about transactions one at a time

A `Discipline` says what the transactions of a program promise each other: an
invariant of the committed states, what no commit ever undoes (`always`), and
for each row what its lock protects (`frame`): a commit of somebody who does
not hold the row leaves that alone.  In return a transaction may rely on the
frames of the rows it holds (`Rely`), however many other transactions commit
between two of its statements.

`wp` reads a transaction statement by statement under that rely, and `Commits`
is what it owes at its commit.  A program whose every call passes (`Verified`)
keeps the invariant in every run, and every entry of the run's log meets the
postcondition of its call (`Verified.holds`, `Verified.log`).

A lock is requested in order: every row already held comes before the requested
one in `before`, given what is assumed of the call (`side`).  A call that is under
way keeps to every order in which it was assumed to lock since it began, whatever the
others do (`Verified.onCourse`).  Where all calls under way keep to one strict order of
the rows that two of them have in common, nobody waits in a circle (`no_cycle`).
-/
namespace RowLocks

/-- What the transactions of a program promise each other. -/
structure Discipline (S K Call α : Type) where
  inv : S → Prop
  always : S → S → Prop
  frame : K → S → S → Prop
  /-- Assumed of a call in every committed state while it is under way. -/
  side : Call → S → Prop
  before : K → K → Prop
  post : Call → α → S → S → Prop
  always_refl : ∀ s, always s s
  always_trans : ∀ {a b c}, inv b → inv c → always a b → always b c → always a c
  frame_refl : ∀ k s, frame k s s
  frame_trans : ∀ {k a b c}, frame k a b → frame k b c → frame k a c

section Logic
variable {S K E Call α β I : Type} (D : Discipline S K Call α) (engine : Engine S K)

/-- What may happen to the committed state while a call holds the rows `held`. -/
structure Rely (call : Call) (held : Set K) (db db' : S) : Prop where
  inv : D.inv db'
  side : D.side call db'
  always : D.always db db'
  frame : ∀ k ∈ held, D.frame k db db'

/-- The weakest precondition of a transaction: `held` are the rows it holds,
`own` its changes so far, `db` a state that was committed at this point. -/
def wp (call : Call) (Q : β → Set K → (S → S) → S → Prop) :
    Tx S K E β → Set K → (S → S) → S → Prop
  | .ret a, held, own, db => Q a held own db
  | .raise _, _, _, _ => True
  | .lock k next, held, own, db =>
    (∀ h ∈ held, h = k ∨ D.before h k) ∧ ∀ db', Rely D call held db db' →
      (engine.present (own db') k = true →
        wp call Q (next (own db')) (insert k held) own db') ∧
      (engine.present (own db') k = false → wp call Q (next (own db')) held own db')
  | .read next, held, own, db =>
    ∀ db', Rely D call held db db' → wp call Q (next (own db')) held own db'
  | .write w next, held, own, db => wp call Q next held (w ∘ own) db

/-- What a call owes when it commits. -/
def Commits (call : Call) (answer : α) (held : Set K) (own : S → S) (db : S) : Prop :=
  ∀ db', Rely D call held db db' → engine.valid (own db') = true →
    D.inv (own db') ∧ D.always db' (own db') ∧ (∀ k ∉ held, D.frame k db' (own db')) ∧
      D.post call answer db' (own db')

/-- Every call of the program passes. -/
def Verified (program : Call → Tx S K E α) : Prop :=
  ∀ call db, D.inv db → D.side call db →
    wp D engine call (Commits D engine call) (program call) ∅ id db

variable {D engine} {call : Call} {held : Set K} {own : S → S} {db db' db'' : S}

theorem Rely.refl (hinv : D.inv db) (hside : D.side call db) : Rely D call held db db :=
  ⟨hinv, hside, D.always_refl db, fun k _ => D.frame_refl k db⟩

theorem Rely.trans (h : Rely D call held db db') (h' : Rely D call held db' db'') :
    Rely D call held db db'' :=
  ⟨h'.inv, h'.side, D.always_trans h.inv h'.inv h.always h'.always,
    fun k hk => D.frame_trans (h.frame k hk) (h'.frame k hk)⟩

theorem Rely.weaken {held' : Set K} (h : Rely D call held db db') (hh : held' ⊆ held) :
    Rely D call held' db db' :=
  { h with frame := fun k hk => h.frame k (hh hk) }

/-- A sequence may be read off in two parts. -/
theorem wp_bind {γ : Type} {Q : γ → Set K → (S → S) → S → Prop} {x : Tx S K E β}
    {f : β → Tx S K E γ} :
    wp D engine call Q (x >>= f) held own db ↔
      wp D engine call (fun a held own db => wp D engine call Q (f a) held own db) x
        held own db := by
  induction x generalizing held own db with
  | ret a => exact Iff.rfl
  | raise e => exact Iff.rfl
  | lock k next ih =>
    simp only [Tx.lock_bind, wp]
    exact and_congr_right fun _ => forall_congr' fun db' => imp_congr_right fun _ =>
      and_congr (imp_congr_right fun _ => ih _) (imp_congr_right fun _ => ih _)
  | read next ih =>
    simp only [Tx.read_bind, wp]
    exact forall_congr' fun db' => imp_congr_right fun _ => ih _
  | write w next ih =>
    simp only [Tx.write_bind, wp]
    exact ih

section Statements
variable {γ : Type} {Q : γ → Set K → (S → S) → S → Prop}

/-- A plain read sees a state that was committed by then, with its own changes. -/
theorem wp_select {query : S → β} {f : β → Tx S K E γ}
    (h : ∀ db', Rely D call held db db' →
      wp D engine call Q (f (query (own db'))) held own db') :
    wp D engine call Q (Tx.select query >>= f) held own db := h

theorem wp_modify {change : S → S} {f : Unit → Tx S K E γ}
    (h : wp D engine call Q (f ()) held (change ∘ own) db) :
    wp D engine call Q (Tx.modify change >>= f) held own db := h

/-- A locked read sees a state that was committed when the lock was granted. -/
theorem wp_forUpdate {k : K} {query : S → β} {f : β → Tx S K E γ}
    (hreq : ∀ h ∈ held, h = k ∨ D.before h k)
    (hpresent : ∀ db', Rely D call held db db' → engine.present (own db') k = true →
      wp D engine call Q (f (query (own db'))) (insert k held) own db')
    (habsent : ∀ db', Rely D call held db db' → engine.present (own db') k = false →
      wp D engine call Q (f (query (own db'))) held own db') :
    wp D engine call Q (Tx.forUpdate k query >>= f) held own db :=
  ⟨hreq, fun db' hr => ⟨hpresent db' hr, habsent db' hr⟩⟩

theorem wp_throw {e : E} : wp D engine call Q (Tx.throw e) held own db := trivial

theorem wp_throw_bind {e : E} {f : β → Tx S K E γ} :
    wp D engine call Q (Tx.throw e >>= f) held own db := trivial

end Statements

/-- A precondition survives what others commit in between. -/
theorem wp_later {Q : β → Set K → (S → S) → S → Prop}
    (hQ : ∀ a held own db db', Q a held own db → Rely D call held db db' → Q a held own db')
    {x : Tx S K E β} (h : wp D engine call Q x held own db) (hr : Rely D call held db db') :
    wp D engine call Q x held own db' := by
  induction x generalizing held own db with
  | ret a => exact hQ a held own db db' h hr
  | raise e => trivial
  | lock k next _ => exact ⟨h.1, fun db'' hr' => h.2 db'' (hr.trans hr')⟩
  | read next _ => exact fun db'' hr' => h db'' (hr.trans hr')
  | write w next ih => exact ih h hr

theorem Commits.later {answer : α} (h : Commits D engine call answer held own db)
    (hr : Rely D call held db db') : Commits D engine call answer held own db' :=
  fun db'' hr' hv => h db'' (hr.trans hr') hv

theorem wp_mono {Q Q' : β → Set K → (S → S) → S → Prop}
    (hQ : ∀ a held own db, Q a held own db → Q' a held own db) {x : Tx S K E β}
    (h : wp D engine call Q x held own db) : wp D engine call Q' x held own db := by
  induction x generalizing held own db with
  | ret a => exact hQ a held own db h
  | raise e => trivial
  | lock k next ih =>
    refine ⟨h.1, fun db' hr => ⟨fun hp => ?_, fun hp => ?_⟩⟩
    · exact ih _ ((h.2 db' hr).1 hp)
    · exact ih _ ((h.2 db' hr).2 hp)
  | read next ih => exact fun db' hr => ih _ (h db' hr)
  | write w next ih => exact ih h

/-- Two readings of one transaction may be put together. -/
theorem wp_and {Q Q' : β → Set K → (S → S) → S → Prop} {x : Tx S K E β}
    (h : wp D engine call Q x held own db) (h' : wp D engine call Q' x held own db) :
    wp D engine call (fun a held own db => Q a held own db ∧ Q' a held own db) x held own db := by
  induction x generalizing held own db with
  | ret a => exact ⟨h, h'⟩
  | raise e => trivial
  | lock k next ih =>
    refine ⟨h.1, fun db' hr => ⟨fun hp => ?_, fun hp => ?_⟩⟩
    · exact ih _ ((h.2 db' hr).1 hp) ((h'.2 db' hr).1 hp)
    · exact ih _ ((h.2 db' hr).2 hp) ((h'.2 db' hr).2 hp)
  | read next ih => exact fun db' hr => ih _ (h db' hr) (h' db' hr)
  | write w next ih => exact ih h h'

/-- What is held is held to the end, and what it protects is relied on to the end,
where the order of the requests does not matter. -/
theorem wp_relied (hbefore : ∀ a b, D.before a b) {held' : Set K} {x : Tx S K E β}
    (hr : Rely D call held db db') (hsub : held ⊆ held') :
    wp D engine call (fun _ held'' _ db'' => held ⊆ held'' ∧ Rely D call held db db'') x
      held' own db' := by
  induction x generalizing held' own db' with
  | ret a => exact ⟨hsub, hr⟩
  | raise e => trivial
  | lock k next ih =>
    refine ⟨fun h _ => .inr (hbefore h k), fun db'' hr' => ⟨fun _ => ?_, fun _ => ?_⟩⟩
    · exact ih _ (hr.trans (hr'.weaken hsub)) (hsub.trans (Set.subset_insert k held'))
    · exact ih _ (hr.trans (hr'.weaken hsub)) hsub
  | read next ih => exact fun db'' hr' => ih _ (hr.trans (hr'.weaken hsub)) hsub
  | write w next ih => exact ih hr hsub

/-- A call with nothing else under way: what it answers is what its `wp` says. -/
theorem wp_alone {Q : β → Set K → (S → S) → S → Prop} {x : Tx S K E β} {b : β} {s : S}
    (h : wp D engine call Q x held own db) (hinv : D.inv db) (hside : D.side call db)
    (hx : x.alone (own db) = .ok (b, s)) :
    ∃ held' own', s = own' db ∧ Q b held' own' db := by
  induction x generalizing held own with
  | ret a => cases hx; exact ⟨held, own, rfl, h⟩
  | raise e => cases hx
  | lock k next ih =>
    have hl := h.2 db (.refl hinv hside)
    cases hp : engine.present (own db) k with
    | true => exact ih _ (hl.1 hp) hx
    | false => exact ih _ (hl.2 hp) hx
  | read next ih => exact ih _ (h db (.refl hinv hside)) hx
  | write w next ih => exact ih h hx

/-- A verified call with nothing else under way keeps its promises. -/
theorem Verified.alone {program : Call → Tx S K E α} (hv : Verified D engine program)
    {call : Call} {db db' : S} {answer : α} (hinv : D.inv db) (hside : D.side call db)
    (hx : (program call).alone db = .ok (answer, db')) (hvalid : engine.valid db' = true) :
    D.inv db' ∧ D.always db db' ∧ D.post call answer db db' := by
  obtain ⟨held, own, rfl, hq⟩ := wp_alone (hv call db hinv hside) hinv hside hx
  obtain ⟨h1, h2, -, h3⟩ := hq db (.refl hinv hside) hvalid
  exact ⟨h1, h2, h3⟩

/-! ### In a larger store -/

/-- A transaction that is verified is verified in a store with more rows and more
transactions, where these keep the promises it relies on. -/
theorem wp_within {K' Call' α' : Type} {D' : Discipline S K' Call' α'} {engine' : Engine S K'}
    {call' : Call'} {f : K → K'} (hf : Function.Injective f)
    (hpresent : ∀ s k, engine'.present s (f k) = engine.present s k)
    (hbefore : ∀ a b, D'.before a b)
    (hrely : ∀ held db db', Rely D' call' held db db' →
      Rely D call (Set.preimage f held) db db')
    {Q Q' : β → Set _ → (S → S) → S → Prop}
    (hQ : ∀ a held own db, Q a (Set.preimage f held) own db → Q' a held own db) {x : Tx S K E β}
    {held : Set K'} (h : wp D engine call Q x (Set.preimage f held) own db) :
    wp D' engine' call' Q' (x.within f) held own db := by
  induction x generalizing held own db with
  | ret a => exact hQ a held own db h
  | raise e => trivial
  | lock k next ih =>
    have hinsert : Set.preimage f (insert (f k) held) = insert k (Set.preimage f held) := by
      ext k'
      exact or_congr_left hf.eq_iff
    refine ⟨fun k' _ => .inr (hbefore k' (f k)), fun db' hr => ⟨fun hp => ?_, fun hp => ?_⟩⟩
    · refine ih _ ?_
      rw [hinsert]
      exact (h.2 db' (hrely held db db' hr)).1 (hpresent _ k ▸ hp)
    · exact ih _ ((h.2 db' (hrely held db db' hr)).2 (hpresent _ k ▸ hp))
  | read next ih => exact fun db' hr => ih _ (h db' (hrely held db db' hr))
  | write w next ih => exact ih h

/-! ### More to promise -/

/-- The discipline with the same promises, and more to say of a commit. -/
def Discipline.withPost (D : Discipline S K Call α) (post : Call → α → S → S → Prop) :
    Discipline S K Call α := { D with post := post }

/-- The precondition of a transaction is the same whatever is promised of commits. -/
theorem wp_withPost {post : Call → α → S → S → Prop} {Q : β → Set K → (S → S) → S → Prop}
    {x : Tx S K E β} (h : wp D engine call Q x held own db) :
    wp (D.withPost post) engine call Q x held own db := by
  have hrely : ∀ {held : Set K} {db db' : S}, Rely (D.withPost post) call held db db' →
      Rely D call held db db' := fun hr => ⟨hr.inv, hr.side, hr.always, hr.frame⟩
  induction x generalizing held own db with
  | ret a => exact h
  | raise e => trivial
  | lock k next ih =>
    refine ⟨h.1, fun db' hr => ⟨fun hp => ?_, fun hp => ?_⟩⟩
    · exact ih _ ((h.2 db' (hrely hr)).1 hp)
    · exact ih _ ((h.2 db' (hrely hr)).2 hp)
  | read next ih => exact fun db' hr => ih _ (h db' (hrely hr))
  | write w next ih => exact ih h

/-- What a verified call found out on its way may be said of its commit too. -/
theorem Verified.withPost {post : Call → α → S → S → Prop} {program : Call → Tx S K E α}
    (hv : Verified D engine program)
    (hpost : ∀ call db, D.inv db → D.side call db →
      wp D engine call (fun answer held own db => ∀ db', Rely D call held db db' →
        D.post call answer db' (own db') → post call answer db' (own db'))
        (program call) ∅ id db) : Verified (D.withPost post) engine program := by
  intro call db hinv hside
  refine wp_mono (fun answer held own db h db' hr hvalid => ?_)
    (wp_withPost (wp_and (hv call db hinv hside) (hpost call db hinv hside)))
  have hrely : Rely D call held db db' := ⟨hr.inv, hr.side, hr.always, hr.frame⟩
  obtain ⟨hinv', halways, hframe, hold⟩ := h.1 db' hrely hvalid
  exact ⟨hinv', halways, hframe, h.2 db' hrely hold⟩

end Logic

section Soundness
variable {S K E Call α I : Type} {D : Discipline S K Call α} {engine : Engine S K}
  {program : Call → Tx S K E α}

/-- Every call under way may count on its side condition. -/
def Sides (D : Discipline S K Call α) (m : Machine S K E Call α I) : Prop :=
  ∀ i r, m.running i = some r → D.side r.call m.db

/-- What is left of a call keeps the discipline. -/
def OnCourse (D : Discipline S K Call α) (engine : Engine S K) (m : Machine S K E Call α I)
    (i : I) : Prop :=
  ∀ r, m.running i = some r →
    wp D engine r.call (Commits D engine r.call) r.rest {k | m.holder k = some i} r.own m.db

/-- The invariant of the machine. -/
structure Sound (D : Discipline S K Call α) (engine : Engine S K)
    (m : Machine S K E Call α I) : Prop where
  inv : D.inv m.db
  holder : ∀ k i, m.holder k = some i → ∃ r, m.running i = some r
  rest : ∀ i, OnCourse D engine m i

/-- A machine with nothing under way is sound. -/
theorem Sound.quiet {m : Machine S K E Call α I} (hinv : D.inv m.db)
    (hrun : ∀ i, m.running i = none) (hheld : ∀ k, m.holder k = none) : Sound D engine m where
  inv := hinv
  holder k i h := by rw [hheld k] at h; cases h
  rest i r h := by rw [hrun i] at h; cases h

/-- A call that did not move is on its course as before. -/
theorem OnCourse.stay {m m' : Machine S K E Call α I} {i : I} (h : OnCourse D engine m i)
    (hdb : m'.db = m.db) (hrunning : m'.running i = m.running i)
    (hheld : ∀ k, m'.holder k = some i ↔ m.holder k = some i) : OnCourse D engine m' i := by
  intro r hr
  rw [hdb, show {k | m'.holder k = some i} = {k | m.holder k = some i} from Set.ext hheld]
  exact h r (hrunning ▸ hr)

/-- A call that went on with `r` is on its course if `r` is. -/
theorem OnCourse.went {m' : Machine S K E Call α I} {i : I} {r : Running S K E Call α}
    (hr : m'.running i = some r)
    (h : wp D engine r.call (Commits D engine r.call) r.rest {k | m'.holder k = some i} r.own
      m'.db) : OnCourse D engine m' i := by
  intro r' hr'
  obtain rfl := Option.some.inj (hr.symm.trans hr')
  exact h

section Steps
variable [DecidableEq I] [DecidableEq K]

omit [DecidableEq I] in
/-- A lock that is granted is one more of its holder's, and nobody else's. -/
theorem held_update {m : Machine S K E Call α I} {i : I} {k : K}
    (hfree : m.holder k = none ∨ m.holder k = some i) (j : I) (k' : K) :
    Function.update m.holder k (some i) k' = some j ↔
      m.holder k' = some j ∨ (j = i ∧ k' = k) := by
  by_cases hk : k' = k
  · subst hk
    rw [Function.update_self]
    rcases hfree with hfree | hfree
    · simp [hfree, eq_comm]
    · simp [hfree, eq_comm]
  · rw [Function.update_of_ne hk]
    simp [hk]

/-- Whoever holds a row is under way. -/
theorem holder_step {m m' : Machine S K E Call α I} {a : Action Call I}
    (hs : m.step engine program a = some m')
    (h : ∀ k i, m.holder k = some i → ∃ r, m.running i = some r) :
    ∀ k i, m'.holder k = some i → ∃ r, m'.running i = some r := by
  -- going on keeps everyone under way, and ending lets go of the rows
  have hresume : ∀ (i : I) (r : Running S K E Call α) (j : I),
      (∃ r, m.running j = some r) → ∃ r', (m.resume i r).running j = some r' := by
    intro i r j hj
    by_cases hji : j = i
    · exact ⟨r, hji ▸ m.resume_self i r⟩
    · exact hj.imp fun _ hr => (m.resume_of_ne i r hji).trans hr
  have hfinish : ∀ (i : I) k j, (m.finish i).holder k = some j →
      ∃ r, (m.finish i).running j = some r := by
    intro i k j hk
    obtain ⟨hk, hne⟩ := (m.finish_holder i).mp hk
    exact (h k j hk).imp fun _ hr => (m.finish_of_ne i hne).trans hr
  obtain ⟨i, call, -, rfl⟩ | ⟨i, call, next, own, -, rfl⟩ | ⟨i, call, w, next, own, -, rfl⟩ |
    ⟨i, call, k, next, own, -, hfree, -, rfl⟩ | ⟨i, call, k, next, own, -, -, rfl⟩ |
    ⟨i, call, answer, own, -, -, rfl⟩ | ⟨i, rfl⟩ := Machine.step_cases hs
  · exact fun k j hk => hresume _ _ j (h k j hk)
  · exact fun k j hk => hresume _ _ j (h k j hk)
  · exact fun k j hk => hresume _ _ j (h k j hk)
  · intro k' j hk'
    rcases (held_update hfree j k').mp hk' with hk' | ⟨rfl, -⟩
    · exact hresume _ _ j (h k' j hk')
    · exact ⟨_, m.resume_self j _⟩
  · exact fun k j hk => hresume _ _ j (h k j hk)
  · exact hfinish i
  · exact hfinish i

/-- The discipline with the same promises, with the rows requested in another order, under
another assumption. -/
def Discipline.ordered (D : Discipline S K Call α) (side : Call → S → Prop)
    (before : K → K → Prop) : Discipline S K Call α := { D with side := side, before := before }

omit [DecidableEq K] in
/-- When a call goes on with `r`, every call is on its course if `r` is on its own. -/
theorem OnCourse.resume {m : Machine S K E Call α I} {i j : I} {r : Running S K E Call α}
    (hi : OnCourse D engine m i)
    (hown : i = j → wp D engine r.call (Commits D engine r.call) r.rest
      {k | m.holder k = some i} r.own m.db) : OnCourse D engine (m.resume j r) i := by
  by_cases hij : i = j
  · refine .went ?_ (hown hij)
    rw [hij]
    exact m.resume_self j r
  · exact hi.stay rfl (m.resume_of_ne j r hij) fun _ => Iff.rfl

/-- **One step of the machine** keeps a call on its course, in any order of the rows, since
the others keep their promises whatever they do. -/
theorem OnCourse.step {side : Call → S → Prop} {before : K → K → Prop}
    (hv : Verified (D.ordered side before) engine program) {m m' : Machine S K E Call α I}
    {a : Action Call I} (h : Sound D engine m) (hsides : Sides D m)
    (hs : m.step engine program a = some m') {i : I}
    (hi : OnCourse (D.ordered side before) engine m i)
    (hside : ∀ r, m.running i = some r → side r.call m.db)
    (hside' : ∀ r, m'.running i = some r → side r.call m'.db) :
    OnCourse (D.ordered side before) engine m' i := by
  have hrely : ∀ r, m.running i = some r →
      Rely (D.ordered side before) r.call {k | m.holder k = some i} m.db m.db :=
    fun r hr => .refl h.inv (hside r hr)
  obtain ⟨j, call, hr, rfl⟩ | ⟨j, call, next, own, hr, rfl⟩ | ⟨j, call, w, next, own, hr, rfl⟩ |
    ⟨j, call, k, next, own, hr, hfree, hp, rfl⟩ | ⟨j, call, k, next, own, hr, hp, rfl⟩ |
    ⟨j, call, answer, own, hr, hvalid, rfl⟩ | ⟨j, rfl⟩ := Machine.step_cases hs
  · refine hi.resume fun hij => ?_
    subst hij
    have hnone : {k | m.holder k = some i} = ∅ := by
      ext k
      refine iff_of_false (fun hk => ?_) (Set.notMem_empty k)
      obtain ⟨r, hr'⟩ := h.holder k i hk
      rw [hr] at hr'
      cases hr'
    rw [hnone]
    exact hv call m.db h.inv (hside' _ (m.resume_self i _))
  · refine hi.resume fun hij => ?_
    subst hij
    exact hi _ hr m.db (hrely _ hr)
  · refine hi.resume fun hij => ?_
    subst hij
    have hw := hi _ hr
    exact hw
  · -- The row that is granted is one more of this call's, or none of its rows.
    by_cases hij : i = j
    · subst hij
      refine .went (m.resume_self i _) ?_
      have hset : {k' | Function.update m.holder k (some i) k' = some i} =
          insert k {k' | m.holder k' = some i} := by
        ext k'
        refine (held_update hfree i k').trans ?_
        simp [or_comm]
      have hw := ((hi _ hr).2 m.db (hrely _ hr)).1 hp
      rw [← hset] at hw
      exact hw
    · exact hi.stay rfl (m.resume_of_ne j _ hij) fun k' =>
        (held_update hfree i k').trans (or_iff_left fun hsame => hij hsame.1)
  · refine hi.resume fun hij => ?_
    subst hij
    exact ((hi _ hr).2 m.db (hrely _ hr)).2 hp
  · -- What a commit changes is no row of another call.
    intro r hrun
    have hij : i ≠ j := by
      rintro rfl
      have hnone := m.finish_self i
      rw [show (m.finish i).running i = some r from hrun] at hnone
      cases hnone
    obtain ⟨hinv, halways, hframe, -⟩ :=
      h.rest j _ hr m.db (.refl h.inv (hsides j _ hr)) hvalid
    have hbefore : m.running i = some r := (m.finish_of_ne j hij).symm.trans hrun
    have hheld : {k | (m.finish j).holder k = some i} = {k | m.holder k = some i} :=
      Set.ext fun k => (m.finish_holder j).trans (and_iff_left hij)
    rw [hheld]
    refine wp_later (fun _ _ _ _ _ hq hr => hq.later hr) (hi r hbefore)
      ⟨hinv, hside' r hrun, halways, fun k hk => hframe k fun hkj => ?_⟩
    have hk : m.holder k = some i := hk
    exact hij (Option.some.inj (hk.symm.trans hkj))
  · by_cases hij : i = j
    · subst hij
      intro r hrun
      rw [m.finish_self i] at hrun
      cases hrun
    · exact hi.stay rfl (m.finish_of_ne j hij) fun k =>
        (m.finish_holder j).trans (and_iff_left hij)

/-- **One step of the machine** keeps every call on its course. -/
theorem Sound.step (hv : Verified D engine program) {m m' : Machine S K E Call α I}
    {a : Action Call I} (h : Sound D engine m) (hside : Sides D m) (hside' : Sides D m')
    (hs : m.step engine program a = some m') : Sound D engine m' where
  inv := by
    rcases Machine.step_db hs with ⟨hdb, -⟩ | ⟨i, call, answer, own, -, hr, hvalid, hdb, -⟩
    · exact hdb ▸ h.inv
    · rw [hdb]
      exact (h.rest i _ hr m.db (.refl h.inv (hside i _ hr)) hvalid).1
  holder := holder_step hs h.holder
  rest i := by
    have hordered : Verified (D.ordered D.side D.before) engine program := hv
    exact OnCourse.step hordered h hside hs (h.rest i) (hside i) (hside' i)

/-- **Soundness.**  A verified program keeps its promises in every run from a
machine where they hold. -/
theorem Verified.holds (hv : Verified D engine program) {P : Machine S K E Call α I → Prop}
    (hP : ∀ m, P m → Sides D m) {m m' : Machine S K E Call α I} (h : Sound D engine m)
    (hr : Run engine program P m m') : Sound D engine m' := by
  induction hr with
  | refl _ => exact h
  | step hr hs hp ih => exact ih.step hv (hP _ hr.last) (hP _ hp) hs

/-- What a log entry says of the commit it records. -/
structure Committed.Meets (D : Discipline S K Call α) (e : Committed S Call α) : Prop where
  found : D.inv e.found
  left : D.inv e.left
  always : D.always e.found e.left
  post : D.post e.call e.answer e.found e.left

/-- Every commit of a run meets the postcondition of its call. -/
theorem Verified.log (hv : Verified D engine program) {P : Machine S K E Call α I → Prop}
    (hP : ∀ m, P m → Sides D m) {m m' : Machine S K E Call α I} (h : Sound D engine m)
    (hr : Run engine program P m m') (hm : ∀ e ∈ m.log, e.Meets D) :
    ∀ e ∈ m'.log, e.Meets D := by
  induction hr with
  | refl _ => exact hm
  | step hr hs hp ih =>
    have hsound := hv.holds hP h hr
    have hside := hP _ hr.last
    obtain ⟨i, call, hi, rfl⟩ | ⟨i, call, next, own, hi, rfl⟩ | ⟨i, call, w, next, own, hi, rfl⟩ |
      ⟨i, call, k, next, own, hi, -, -, rfl⟩ | ⟨i, call, k, next, own, hi, -, rfl⟩ |
      ⟨i, call, answer, own, hi, hvalid, rfl⟩ | ⟨i, rfl⟩ := Machine.step_cases hs
    case inr.inr.inr.inr.inr.inl =>
      intro e he
      rcases List.mem_cons.mp he with rfl | he
      · obtain ⟨hinv, halways, -, hpost⟩ :=
          hsound.rest i _ hi _ (.refl hsound.inv (hside i _ hi)) hvalid
        exact ⟨hsound.inv, hinv, halways, hpost⟩
      · exact ih e he
    all_goals exact ih

/-- **What a lock protects stays** for as long as it is held, and whoever holds it
goes on with the same call. -/
theorem Verified.held (hv : Verified D engine program)
    {P : Machine S K E Call α I → Prop} (hP : ∀ m, P m → Sides D m)
    {m m' : Machine S K E Call α I} (h : Sound D engine m) {k : K} {i : I}
    (hr : Run engine program (fun m => P m ∧ m.holder k = some i) m m') :
    D.frame k m.db m'.db ∧
      ∀ r, m.running i = some r → ∃ r', m'.running i = some r' ∧ r'.call = r.call := by
  induction hr with
  | refl _ => exact ⟨D.frame_refl k m.db, fun r hr => ⟨r, hr, rfl⟩⟩
  | @step m' m'' a hr hs hp ih =>
    obtain ⟨hframe, hcall⟩ := ih
    have hsound : Sound D engine m' := hv.holds (fun m h => hP m h.1) h hr
    obtain ⟨r2, hr2⟩ := hsound.holder k i hr.last.2
    obtain ⟨r3, hr3⟩ := (hv.holds (fun m h => hP m h.1) h (hr.step hs hp)).holder k i hp.2
    obtain ⟨hothers, hturn⟩ := Machine.step_running hs
    constructor
    · refine D.frame_trans hframe ?_
      rcases Machine.step_db hs with ⟨hdb, -⟩ | ⟨j, call, answer, own, rfl, hj, hvalid, hdb, -⟩
      · rw [hdb]
        exact D.frame_refl k _
      · rw [hdb]
        obtain ⟨-, -, hown, -⟩ :=
          hsound.rest j _ hj _ (.refl hsound.inv (hP _ hr.last.1 j _ hj)) hvalid
        refine hown k fun hk => ?_
        -- Whoever commits lets go of its rows.
        obtain rfl : j = i := Option.some.inj (hk.symm.trans hr.last.2)
        have hnone : m''.running j = none := hturn
        rw [hnone] at hr3
        cases hr3
    · intro r hrun
      obtain ⟨r', hr', hsame⟩ := hcall r hrun
      by_cases hi : i = a.actor
      · subst hi
        cases a with
        | begin_ j call =>
          obtain ⟨hnone, -⟩ := hturn
          have hr' : m'.running j = some r' := hr'
          rw [hnone] at hr'
          cases hr'
        | advance j =>
          obtain ⟨q, q', hq, hq', hqq⟩ := hturn
          obtain rfl := Option.some.inj (hr'.symm.trans hq)
          exact ⟨q', hq', hqq.trans hsame⟩
        | commit j =>
          have hnone : m''.running j = none := hturn
          have hr3 : m''.running j = some r3 := hr3
          rw [hnone] at hr3
          cases hr3
        | rollback j =>
          have hnone : m''.running j = none := hturn
          have hr3 : m''.running j = some r3 := hr3
          rw [hnone] at hr3
          cases hr3
      · exact ⟨r', (hothers i hi).trans hr', hsame⟩

/-- **A call under way is on its course in every order it kept to** since it began,
whatever the orders of the others. -/
theorem Verified.onCourse {side : Call → S → Prop} {before : K → K → Prop}
    (hv : Verified D engine program) (hsides : ∀ m : Machine S K E Call α I, Sides D m)
    (hordered : Verified (D.ordered side before) engine program)
    {first : Machine S K E Call α I} (hfirst : Sound D engine first)
    (hquiet : ∀ i, first.running i = none) {states : List (Machine S K E Call α I)}
    (h : Trace engine program first states) : ∀ m ∈ states.head?, Sound D engine m ∧
      ∀ i, (∀ r, m.running i = some r → ∀ m' ∈ since i states, side r.call m'.db) →
        OnCourse (D.ordered side before) engine m i := by
  induction h with
  | start =>
    rintro m hm
    obtain rfl := Option.some.inj hm
    exact ⟨hfirst, fun i _ r hr => by rw [hquiet i] at hr; cases hr⟩
  | @step m m' past a _ hs ih =>
    rintro m1 hm
    obtain rfl := Option.some.inj hm
    obtain ⟨hsound, hcourse⟩ := ih m rfl
    refine ⟨hsound.step hv (hsides m) (hsides m') hs, fun i hside' r' hr' => ?_⟩
    have hside : ∀ r, m.running i = some r → ∀ m1 ∈ since i (m :: past), side r.call m1.db :=
      fun r hr m1 hm1 => Machine.step_call hs hr hr' ▸ hside' r' hr' m1 (mem_since_cons hr' hm1)
    exact OnCourse.step hordered hsound (hsides m) hs (hcourse i hside)
      (fun r hr => hside r hr m (mem_since hr)) (fun r hr => hside' r hr m' (mem_since hr)) r' hr'

end Steps

/-! ### Waiting -/

section Waiting
variable {m : Machine S K E Call α I} {rows : I → Set K} {before : K → K → Prop}

/-- The row is one of another call. -/
def Shared (rows : I → Set K) (i : I) (k : K) : Prop := ∃ j, j ≠ i ∧ k ∈ rows j

/-- The rows of one call, in order as far as they are of others too. -/
def InOrder (rows : I → Set K) (before : K → K → Prop) (i : I) (a b : K) : Prop :=
  a ∈ rows i ∧ b ∈ rows i ∧ (Shared rows i a → Shared rows i b → before a b)

/-- A call that waits requests, after all it holds, a row that another holds. -/
theorem waits_after {side : I → Call → S → Prop}
    (h : ∀ i, OnCourse (D.ordered (side i) (InOrder rows before i)) engine m i) {i j : I}
    (hw : m.WaitsFor i j) : j ≠ i ∧ ∃ k, m.holder k = some j ∧
      ∀ k', m.holder k' = some i → InOrder rows before i k' k := by
  obtain ⟨hne, call, k, next, own, hr, hk⟩ := hw
  refine ⟨hne.symm, k, hk, fun k' hk' => ((h i _ hr).1 k' hk').resolve_left ?_⟩
  rintro rfl
  exact hne (Option.some.inj (hk'.symm.trans hk))

/-- **Nobody waits in a circle**, where one strict order of the rows is kept to by all calls
under way, as far as a row is of two of them. -/
theorem no_cycle [IsStrictOrder K before] {side : I → Call → S → Prop}
    (h : ∀ i, OnCourse (D.ordered (side i) (InOrder rows before i)) engine m i) (i : I) :
    ¬ Relation.TransGen m.WaitsFor i i := by
  -- Whoever `i` waits for and waits itself holds a row after all the shared ones `i` holds.
  have hedge : ∀ {i j l : I} {k0 : K}, m.holder k0 = some i → m.WaitsFor i j → m.WaitsFor j l →
      ∃ k, m.holder k = some j ∧ Shared rows j k ∧
        ∀ k', m.holder k' = some i → Shared rows i k' → before k' k := by
    intro i j l k0 hk0 hij hjl
    obtain ⟨hne, k, hk, hall⟩ := waits_after h hij
    obtain ⟨-, k2, -, hnext⟩ := waits_after h hjl
    exact ⟨k, hk, ⟨i, hne.symm, (hall k0 hk0).2.1⟩, fun k' hk' hshared =>
      (hall k' hk').2.2 hshared ⟨j, hne, (hnext k hk).1⟩⟩
  have hchain : ∀ {i j l : I} {k0 : K}, m.holder k0 = some i →
      Relation.TransGen m.WaitsFor i j → m.WaitsFor j l →
      ∃ k, m.holder k = some j ∧ Shared rows j k ∧
        ∀ k', m.holder k' = some i → Shared rows i k' → before k' k := by
    intro i j l k0 hk0 hij
    induction hij generalizing l with
    | single hw => exact hedge hk0 hw
    | tail _ hw ih =>
      intro hjl
      obtain ⟨k1, hk1, hshared1, hall1⟩ := ih hw
      obtain ⟨k, hk, hshared, hall⟩ := hedge hk1 hw hjl
      exact ⟨k, hk, hshared, fun k' hk' hshared' =>
        trans_of before (hall1 k' hk' hshared') (hall k1 hk1 hshared1)⟩
  intro hcycle
  obtain ⟨j, hij, -⟩ := Relation.TransGen.head'_iff.mp hcycle
  obtain ⟨l, -, hli⟩ := Relation.TransGen.tail'_iff.mp hcycle
  obtain ⟨-, k0, hk0, -⟩ := waits_after h hli
  obtain ⟨k, hk, hshared, hall⟩ := hchain hk0 hcycle hij
  exact irrefl k (hall k hk hshared)

end Waiting

end Soundness
end RowLocks
