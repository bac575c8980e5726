import Mathlib.Data.List.Basic
import Mathlib.Logic.Function.Basic

/-! # A key-value server with strings, sets and expiries

What a program that talks to Valkey (or Redis) through scripts relies on, and
nothing else: keys hold a string or a set of strings, each with an optional
expiry in the server's own milliseconds; a script runs alone, sees one instant
of the clock, and either answers or stops at the first command that fails,
keeping the effect of the commands before it.

A key past its expiry is invisible to every command, whether or not the server
has reclaimed it yet, so a script is run on the server from which such keys are
gone (`Server.expire`).  Inside a script no key can expire, because the clock is
frozen.

`Yields` is the rule for reading a script off command by command: it states the
answer and the state after.  The last section describes set membership and
deletion as functions of the keys alone, which is the form in which an
invariant about several keys is stated.
-/
namespace Valkey

/-- What a key holds. -/
inductive Value (K P : Type) where
  | str (payload : P)
  | set (members : List K)
  deriving DecidableEq

/-- A value and the instant, in milliseconds, from which it is gone. -/
structure Entry (K P : Type) where
  value : Value K P
  expiresAt : Option Nat
  deriving DecidableEq

/-- The keys of a server. -/
abbrev Keyspace (K P : Type) := K → Option (Entry K P)

/-- A server: its clock, in milliseconds, and its keys. -/
structure Server (K P : Type) where
  clock : Nat
  keys : Keyspace K P

/-- Why a command is refused. -/
inductive Failure where
  /-- `WRONGTYPE`: a string command on a set, or a set command on a string. -/
  | wrongType
  /-- A time to live that is not positive. -/
  | invalidExpire
  deriving DecidableEq

/-- A script: commands run one after the other, stopping at the first failure.
The effect of the commands before the failure stays. -/
abbrev Script (K P α : Type) := ExceptT Failure (StateM (Server K P)) α

variable {K P α β : Type}

namespace Entry

/-- Whether the entry is still there at `now`. -/
def aliveAt (e : Entry K P) (now : Nat) : Bool :=
  match e.expiresAt with
  | none => true
  | some t => decide (now < t)

/-- The members of a set; a missing key is an empty set. -/
def members : Option (Entry K P) → List K
  | some ⟨.set l, _⟩ => l
  | _ => []

/-- The string a key holds. -/
def payload : Option (Entry K P) → Option P
  | some ⟨.str p, _⟩ => some p
  | _ => none

/-- An entry that is still there was there before. -/
theorem aliveAt_of_le {e : Entry K P} {now now' : Nat} (hle : now ≤ now')
    (h : e.aliveAt now' = true) : e.aliveAt now = true := by
  unfold aliveAt at *
  split
  · rfl
  · rename_i t ht
    rw [ht] at h
    exact decide_eq_true (Nat.lt_of_le_of_lt hle (of_decide_eq_true h))

@[simp] theorem members_none : members (none : Option (Entry K P)) = [] := rfl
@[simp] theorem members_set (l : List K) (t : Option Nat) :
    members (some (⟨.set l, t⟩ : Entry K P)) = l := rfl
@[simp] theorem payload_none : payload (none : Option (Entry K P)) = none := rfl
@[simp] theorem payload_str (p : P) (t : Option Nat) :
    payload (some (⟨.str p, t⟩ : Entry K P)) = some p := rfl

end Entry

/-- The server without the keys whose expiry has passed. -/
def Server.expire (s : Server K P) : Server K P :=
  { s with keys := fun k => (s.keys k).filter (·.aliveAt s.clock) }

@[simp] theorem Server.expire_clock (s : Server K P) : s.expire.clock = s.clock := rfl

theorem Server.expire_keys (s : Server K P) {k : K} {e : Entry K P} :
    s.expire.keys k = some e ↔ s.keys k = some e ∧ e.aliveAt s.clock = true := by
  simp [Server.expire, Option.filter_eq_some_iff]

/-- Nothing is left to expire at the same instant. -/
theorem Server.expire_expire (s : Server K P) : s.expire.expire = s.expire := by
  simp [Server.expire, Option.filter_filter]

/-- With time, more keys are gone. -/
theorem Server.expire_later (s : Server K P) {now : Nat} (hle : s.clock ≤ now) (k : K) :
    ({ s with clock := now } : Server K P).expire.keys k =
      (s.expire.keys k).filter (·.aliveAt now) := by
  simp only [Server.expire, Option.filter_filter]
  refine congrArg (Option.filter · (s.keys k)) (funext fun e => ?_)
  rw [Bool.eq_iff_iff, Bool.and_eq_true]
  exact ⟨fun h => ⟨Entry.aliveAt_of_le hle h, h⟩, fun h => h.2⟩

/-- Runs a script at the server's present instant. -/
def Script.eval (x : Script K P α) (s : Server K P) : Except Failure α × Server K P :=
  x.run.run s.expire

/-! ## Commands -/

/-- `TIME`, in milliseconds. -/
def time : Script K P Nat := fun s => (.ok s.clock, s)

section Commands
variable [DecidableEq K]

/-- The server with the entry of one key replaced. -/
def Server.put (s : Server K P) (k : K) (e : Option (Entry K P)) : Server K P :=
  { s with keys := Function.update s.keys k e }

@[simp] theorem Server.put_clock (s : Server K P) (k : K) (e : Option (Entry K P)) :
    (s.put k e).clock = s.clock := rfl

@[simp] theorem Server.put_keys (s : Server K P) (k : K) (e : Option (Entry K P)) :
    (s.put k e).keys = Function.update s.keys k e := rfl

theorem Server.put_put (s : Server K P) (k : K) (e e' : Option (Entry K P)) :
    (s.put k e).put k e' = s.put k e' := by
  simp [Server.put]

theorem Server.expire_put (s : Server K P) (k : K) (e : Option (Entry K P)) :
    (s.put k e).expire = s.expire.put k (e.filter (·.aliveAt s.clock)) := by
  simp only [Server.expire, Server.put, Server.mk.injEq, true_and]
  funext j
  by_cases hj : j = k
  · rw [hj, Function.update_self, Function.update_self]
  · rw [Function.update_of_ne hj, Function.update_of_ne hj]

/-- `GET k`. -/
def strGet (k : K) : Script K P (Option P) := fun s =>
  match s.keys k with
  | some ⟨.set _, _⟩ => (.error .wrongType, s)
  | e => (.ok (Entry.payload e), s)

/-- `SET k p EX seconds`, whatever the key held before. -/
def strSet (k : K) (p : P) (seconds : Nat) : Script K P Unit := fun s =>
  if seconds = 0 then (.error .invalidExpire, s)
  else (.ok (), s.put k (some ⟨.str p, some (s.clock + seconds * 1000)⟩))

/-- `DEL k`: how many keys were removed. -/
def del (k : K) : Script K P Nat := fun s =>
  (.ok (if (s.keys k).isSome then 1 else 0), s.put k none)

/-- `SMEMBERS k`. -/
def setMembers (k : K) : Script K P (List K) := fun s =>
  match s.keys k with
  | some ⟨.str _, _⟩ => (.error .wrongType, s)
  | e => (.ok (Entry.members e), s)

/-- The entry after `SADD`: a new set has no expiry, an old one keeps its own. -/
def withMember (m : K) : Option (Entry K P) → Option (Entry K P)
  | some ⟨.set l, t⟩ => some ⟨.set (if m ∈ l then l else m :: l), t⟩
  | _ => some ⟨.set [m], none⟩

/-- The entry after `SREM`: a set that loses its last member is gone. -/
def withoutMember (m : K) : Option (Entry K P) → Option (Entry K P)
  | some ⟨.set l, t⟩ =>
    if l.filter (· ≠ m) = [] then none else some ⟨.set (l.filter (· ≠ m)), t⟩
  | e => e

/-- The entry after `EXPIRE`. -/
def expiringAt (t : Nat) (e : Option (Entry K P)) : Option (Entry K P) :=
  e.map fun e => { e with expiresAt := some t }

/-- `SADD k m`. -/
def setAdd (k m : K) : Script K P Unit := fun s =>
  match s.keys k with
  | some ⟨.str _, _⟩ => (.error .wrongType, s)
  | e => (.ok (), s.put k (withMember m e))

/-- `SREM k m`. -/
def setRemove (k m : K) : Script K P Unit := fun s =>
  match s.keys k with
  | some ⟨.str _, _⟩ => (.error .wrongType, s)
  | e => (.ok (), s.put k (withoutMember m e))

/-- `EXPIRE k seconds`. -/
def expire (k : K) (seconds : Nat) : Script K P Unit := fun s =>
  (.ok (), s.put k (expiringAt (s.clock + seconds * 1000) (s.keys k)))

/-- `PEXPIRE k ms`: a time that is not positive removes the key at once. -/
def pexpire (k : K) (ms : Int) : Script K P Unit := fun s =>
  (.ok (), s.put k (if ms ≤ 0 then none else expiringAt (s.clock + ms.toNat) (s.keys k)))

/-- `PTTL k`, of an entry: -2 for a missing key, -1 for one that does not expire. -/
def ttlOf (now : Nat) : Option (Entry K P) → Int
  | none => -2
  | some ⟨_, none⟩ => -1
  | some ⟨_, some t⟩ => t - now

omit [DecidableEq K] in
/-- `PTTL k`. -/
def pttl (k : K) : Script K P Int := fun s => (.ok (ttlOf s.clock (s.keys k)), s)

/-- The entry after `INCR`: a new counter has no expiry, an old one keeps its own. -/
def incremented : Option (Entry K Int) → Entry K Int
  | some ⟨.str n, t⟩ => ⟨.str (n + 1), t⟩
  | _ => ⟨.str 1, none⟩

/-- `INCR k`, of keys that hold numbers. -/
def strIncr (k : K) : Script K Int Int := fun s =>
  match s.keys k with
  | some ⟨.set _, _⟩ => (.error .wrongType, s)
  | e => (.ok ((Entry.payload e).getD 0 + 1), s.put k (some (incremented e)))

end Commands

/-! ## Reading a script off -/

/-- Run from `s`, the script answers `a` and leaves `s'`. -/
def Yields (x : Script K P α) (s : Server K P) (a : α) (s' : Server K P) : Prop :=
  x.run.run s = (.ok a, s')

/-- Every key of the list holds a set, or nothing. -/
def HoldsSet (keys : Keyspace K P) (k : K) : Prop :=
  ∀ e, keys k = some e → ∃ l, e.value = .set l

/-- The key holds a string, or nothing. -/
def HoldsStr (keys : Keyspace K P) (k : K) : Prop :=
  ∀ e, keys k = some e → ∃ p, e.value = .str p

theorem Yields.pure (a : α) (s : Server K P) : Yields (Pure.pure a : Script K P α) s a s := rfl

theorem Yields.bind {x : Script K P α} {f : α → Script K P β} {s s' s'' : Server K P} {a : α}
    {b : β} (hx : Yields x s a s') (hf : Yields (f a) s' b s'') :
    Yields (x >>= f) s b s'' := by
  unfold Yields at *
  rw [ExceptT.run_bind, StateT.run_bind, hx]
  exact hf

theorem Yields.eval {x : Script K P α} {s s' : Server K P} {a : α}
    (h : Yields x s.expire a s') : x.eval s = (.ok a, s') := h

variable {s : Server K P} {k m : K}

theorem time_yields : Yields (time : Script K P Nat) s s.clock s := rfl

theorem strGet_yields (h : HoldsStr s.keys k) :
    Yields (strGet k) s (Entry.payload (s.keys k)) s := by
  show strGet k s = _
  unfold strGet
  split
  · rename_i l t hk
    obtain ⟨p, hp⟩ := h _ hk
    cases hp
  · rfl

theorem setMembers_yields (h : HoldsSet s.keys k) :
    Yields (setMembers k) s (Entry.members (s.keys k)) s := by
  show setMembers k s = _
  unfold setMembers
  split
  · rename_i p t hk
    obtain ⟨l, hl⟩ := h _ hk
    cases hl
  · rfl

section Writes
variable [DecidableEq K]

theorem strSet_yields {p : P} {seconds : Nat} (h : 0 < seconds) :
    Yields (strSet k p seconds) s ()
      (s.put k (some ⟨.str p, some (s.clock + seconds * 1000)⟩)) := by
  show strSet k p seconds s = _
  rw [strSet, if_neg (Nat.ne_of_gt h)]

theorem del_yields :
    Yields (del k) s (if (s.keys k).isSome then 1 else 0) (s.put k none) := rfl

theorem expire_yields {seconds : Nat} : Yields (expire k seconds) s ()
    (s.put k (expiringAt (s.clock + seconds * 1000) (s.keys k))) := rfl

theorem pexpire_yields {ms : Int} (h : 0 < ms) : Yields (pexpire k ms) s ()
    (s.put k (expiringAt (s.clock + ms.toNat) (s.keys k))) := by
  show pexpire k ms s = _
  rw [pexpire, if_neg (Int.not_le.mpr h)]

omit [DecidableEq K] in
theorem pttl_yields : Yields (pttl k) s (ttlOf s.clock (s.keys k)) s := rfl

theorem strIncr_yields {s : Server K Int} (h : HoldsStr s.keys k) :
    Yields (strIncr k) s ((Entry.payload (s.keys k)).getD 0 + 1)
      (s.put k (some (incremented (s.keys k)))) := by
  show strIncr k s = _
  unfold strIncr
  split
  · rename_i l t hk
    obtain ⟨p, hp⟩ := h _ hk
    cases hp
  · rfl

theorem setAdd_yields (h : HoldsSet s.keys k) :
    Yields (setAdd k m) s () (s.put k (withMember m (s.keys k))) := by
  show setAdd k m s = _
  unfold setAdd
  split
  · rename_i p t hk
    obtain ⟨l, hl⟩ := h _ hk
    cases hl
  · rfl

theorem setRemove_yields (h : HoldsSet s.keys k) :
    Yields (setRemove k m) s () (s.put k (withoutMember m (s.keys k))) := by
  show setRemove k m s = _
  unfold setRemove
  split
  · rename_i p t hk
    obtain ⟨l, hl⟩ := h _ hk
    cases hl
  · rfl

end Writes

/-! ## Membership, as a function of the keys -/

/-- Membership only says something of a key that holds a set. -/
theorem exists_set_of_mem {e : Option (Entry K P)} {m : K} (h : m ∈ Entry.members e) :
    ∃ l t, e = some ⟨.set l, t⟩ ∧ m ∈ l := by
  match e with
  | some ⟨.set l, t⟩ => exact ⟨l, t, rfl, h⟩
  | some ⟨.str p, t⟩ => exact absurd h (by simp [Entry.members])
  | none => exact absurd h (by simp)

section Membership
variable [DecidableEq K]

/-- Removing another member leaves the set, and its expiry, in place. -/
theorem withoutMember_keeps {l : List K} {t : Option Nat} {m x : K} (hx : x ∈ l) (hne : x ≠ m) :
    withoutMember m (some (⟨.set l, t⟩ : Entry K P)) = some ⟨.set (l.filter (· ≠ m)), t⟩ := by
  have hmem : x ∈ l.filter (· ≠ m) := List.mem_filter.mpr ⟨hx, by simpa using hne⟩
  rw [withoutMember, if_neg (List.ne_nil_of_mem hmem)]

theorem holdsSet_withoutMember {keys : Keyspace K P} {k j m : K} (h : HoldsSet keys j) :
    HoldsSet (Function.update keys k (withoutMember m (keys k))) j := by
  intro e he
  by_cases hjk : j = k
  · subst j
    rw [Function.update_self] at he
    match hk : keys k with
    | some ⟨.set l, t⟩ =>
      rw [hk] at he
      simp only [withoutMember] at he
      split at he
      · cases he
      · exact ⟨_, by rw [← Option.some.inj he]⟩
    | some ⟨.str p, t⟩ =>
      obtain ⟨l, hl⟩ := h _ hk
      cases hl
    | none => rw [hk] at he; cases he
  · rw [Function.update_of_ne hjk] at he
    exact h e he

theorem holdsSet_withMember {keys : Keyspace K P} {k j m : K} (h : HoldsSet keys j) :
    HoldsSet (Function.update keys k (withMember m (keys k))) j := by
  intro e he
  by_cases hjk : j = k
  · subst j
    rw [Function.update_self] at he
    match hk : keys k with
    | some ⟨.set l, t⟩ => rw [hk] at he; exact ⟨_, by rw [← Option.some.inj he]⟩
    | some ⟨.str p, t⟩ => rw [hk] at he; exact ⟨_, by rw [← Option.some.inj he]⟩
    | none => rw [hk] at he; exact ⟨_, by rw [← Option.some.inj he]⟩
  · rw [Function.update_of_ne hjk] at he
    exact h e he

theorem withoutMember_idem (m : K) (e : Option (Entry K P)) :
    withoutMember m (withoutMember m e) = withoutMember m e := by
  match e with
  | some ⟨.set l, t⟩ =>
    by_cases hl : l.filter (· ≠ m) = []
    · rw [withoutMember, if_pos hl]; rfl
    · rw [withoutMember, if_neg hl, withoutMember, List.filter_filter]
      simp only [Bool.and_self, if_neg hl]
  | some ⟨.str p, t⟩ => rfl
  | none => rfl

theorem mem_withoutMember {e : Option (Entry K P)} {m x : K} :
    x ∈ Entry.members (withoutMember m e) ↔ x ∈ Entry.members e ∧ x ≠ m := by
  match e with
  | some ⟨.set l, t⟩ =>
    rw [withoutMember]
    split
    · rename_i hnil
      simp only [Entry.members_none, Entry.members_set, List.not_mem_nil, false_iff, not_and,
        not_not]
      intro hx
      simpa using List.filter_eq_nil_iff.mp hnil x hx
    · simp
  | some ⟨.str p, t⟩ => simp [withoutMember, Entry.members]
  | none => simp [withoutMember]

theorem mem_withMember {e : Option (Entry K P)} {m x : K} :
    x ∈ Entry.members (withMember m e) ↔ x = m ∨ x ∈ Entry.members e := by
  match e with
  | some ⟨.set l, t⟩ =>
    rw [withMember, Entry.members_set, Entry.members_set]
    split
    · rename_i hm
      exact ⟨.inr, fun h => h.elim (fun hx => hx ▸ hm) id⟩
    · exact List.mem_cons
  | some ⟨.str p, t⟩ => simp [withMember, Entry.members]
  | none => simp [withMember]

omit [DecidableEq K] in
@[simp] theorem members_expiringAt (t : Nat) (e : Option (Entry K P)) :
    Entry.members (expiringAt t e) = Entry.members e := by
  match e with
  | some ⟨.set l, x⟩ => rfl
  | some ⟨.str p, x⟩ => rfl
  | none => rfl

/-- `k` holds a set that has `m` in it, and does not expire before `t`. -/
def HasMember (keys : Keyspace K P) (k m : K) (t : Nat) : Prop :=
  ∃ l x, keys k = some ⟨.set l, some x⟩ ∧ m ∈ l ∧ t ≤ x

omit [DecidableEq K] in
theorem HasMember.mem {keys : Keyspace K P} {k m : K} {t : Nat} (h : HasMember keys k m t) :
    m ∈ Entry.members (keys k) := by
  obtain ⟨l, x, hk, hm, -⟩ := h
  rw [hk]
  exact hm

omit [DecidableEq K] in
theorem HasMember.congr {keys keys' : Keyspace K P} {k m : K} {t : Nat}
    (h : HasMember keys k m t) (hk : keys' k = keys k) : HasMember keys' k m t := by
  obtain ⟨l, x, hl, hm, ht⟩ := h
  exact ⟨l, x, hk.trans hl, hm, ht⟩

/-- A member stays in its set when another one leaves it. -/
theorem HasMember.withoutMember {keys keys' : Keyspace K P} {k m m' : K} {t : Nat}
    (h : HasMember keys k m t) (hne : m ≠ m') (hk : keys' k = withoutMember m' (keys k)) :
    HasMember keys' k m t := by
  obtain ⟨l, x, hl, hm, ht⟩ := h
  exact ⟨_, x, by rw [hk, hl, withoutMember_keeps hm hne],
    List.mem_filter.mpr ⟨hm, by simpa using hne⟩, ht⟩

/-- A member stays in its set when another one joins it, with the expiry moved no earlier. -/
theorem HasMember.withMember {keys keys' : Keyspace K P} {k m : K} {t t' : Nat}
    (h : HasMember keys k m t) (m' : K) (ht' : t ≤ t')
    (hk : keys' k = expiringAt t' (withMember m' (keys k))) : HasMember keys' k m t := by
  obtain ⟨l, x, hl, hm, -⟩ := h
  refine ⟨if m' ∈ l then l else m' :: l, t', by rw [hk, hl]; rfl, ?_, ht'⟩
  split
  · exact hm
  · exact List.mem_cons_of_mem _ hm

/-- A member that has just joined a set is in it. -/
theorem HasMember.joined {keys keys' : Keyspace K P} {k m : K} {t : Nat}
    (h : HoldsSet keys k) (hk : keys' k = expiringAt t (Valkey.withMember m (keys k))) :
    HasMember keys' k m t := by
  match he : keys k with
  | some ⟨.set l, x⟩ =>
    rw [he] at hk
    refine ⟨_, t, hk, ?_, Nat.le_refl t⟩
    split
    · assumption
    · exact List.mem_cons_self
  | some ⟨.str p, x⟩ =>
    obtain ⟨l, hl⟩ := h _ he
    cases hl
  | none =>
    rw [he] at hk
    exact ⟨_, t, hk, List.mem_singleton_self m, Nat.le_refl t⟩

end Membership
end Valkey
