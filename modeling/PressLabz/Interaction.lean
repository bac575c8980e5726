import Mathlib.Data.List.Induction
import Mathlib.Logic.Relation

/-! # Programs that talk to a store

A program sends a command, waits for the reply and goes on with it.  The store is not the
program's alone: between any two of its commands others may change it as they like.  A run
is kept with its history, and what the program said in it is a conversation that the program
could have had with anybody (`Run.said`).
-/
namespace Interaction
variable {C R S α : Type}

inductive Prog (C R α : Type) where
  | done (result : α)
  | send (command : C) (next : R → Prog C R α)

/-- A command, the reply, and the store before and after it. -/
structure Exchange (C R S : Type) where
  command : C
  reply : R
  found : S
  left : S

inductive Event (C R S : Type) where
  | exchange (e : Exchange C R S)
  | others (found left : S)

namespace Event

def found : Event C R S → S
  | .exchange e => e.found
  | .others found _ => found

def left : Event C R S → S
  | .exchange e => e.left
  | .others _ left => left

/-- What the program said. -/
def said : Event C R S → Option (C × R)
  | .exchange e => some (e.command, e.reply)
  | .others _ _ => none

end Event

/-- The configuration of a run that has come so far. -/
structure Config (C R S α : Type) where
  prog : Prog C R α
  store : S
  history : List (Event C R S)

def Config.said (c : Config C R S α) : List (C × R) := c.history.filterMap Event.said

/-- `answers` says how the store may answer a command, and what it is then. -/
inductive Step (answers : S → C → R → S → Prop) : Config C R S α → Config C R S α → Prop
  | exchange (command : C) (next : R → Prog C R α) (found : S) (history : List (Event C R S))
      (reply : R) (left : S) (h : answers found command reply left) :
      Step answers ⟨.send command next, found, history⟩
        ⟨next reply, left, history ++ [.exchange ⟨command, reply, found, left⟩]⟩
  | others (prog : Prog C R α) (found left : S) (history : List (Event C R S)) :
      Step answers ⟨prog, found, history⟩ ⟨prog, left, history ++ [.others found left]⟩

def Run (answers : S → C → R → S → Prop) (prog : Prog C R α) (store : S)
    (c : Config C R S α) : Prop :=
  Relation.ReflTransGen (Step answers) ⟨prog, store, []⟩ c

section Going
variable {answers : S → C → R → S → Prop} {prog : Prog C R α} {store found : S}
  {history : List (Event C R S)}

theorem Run.exchange {command : C} {next : R → Prog C R α}
    (h : Run answers prog store ⟨.send command next, found, history⟩) {reply : R} {left : S}
    (hanswers : answers found command reply left) :
    Run answers prog store
      ⟨next reply, left, history ++ [.exchange ⟨command, reply, found, left⟩]⟩ :=
  h.tail (.exchange command next found history reply left hanswers)

theorem Run.others {rest : Prog C R α} (h : Run answers prog store ⟨rest, found, history⟩)
    (left : S) : Run answers prog store ⟨rest, left, history ++ [.others found left]⟩ :=
  h.tail (.others rest found left history)

end Going

/-- What a program has said, and what is left of it. -/
inductive Reaches (start : Prog C R α) : List (C × R) → Prog C R α → Prop
  | start : Reaches start [] start
  | send {talk : List (C × R)} {command : C} {next : R → Prog C R α}
      (h : Reaches start talk (.send command next)) (reply : R) :
      Reaches start (talk ++ [(command, reply)]) (next reply)

/-- A conversation that went on was one before. -/
theorem Reaches.before {start : Prog C R α} {talk rest : List (C × R)} {command : C} {reply : R}
    {prog : Prog C R α} (h : Reaches start (talk ++ (command, reply) :: rest) prog) :
    ∃ next, Reaches start talk (.send command next) := by
  induction rest using List.reverseRecOn generalizing prog with
  | nil =>
    generalize htalk : talk ++ [(command, reply)] = whole at h
    cases h with
    | start => simp at htalk
    | send h reply' =>
      obtain ⟨rfl, hlast⟩ := List.append_inj' htalk rfl
      obtain ⟨rfl, rfl⟩ := Prod.mk.inj (List.singleton_inj.mp hlast)
      exact ⟨_, h⟩
  | append_singleton rest last ih =>
    generalize htalk : talk ++ (command, reply) :: (rest ++ [last]) = whole at h
    cases h with
    | start => simp at htalk
    | send h reply' =>
      rw [← List.cons_append, ← List.append_assoc] at htalk
      obtain ⟨rfl, -⟩ := List.append_inj' htalk rfl
      exact ih h

/-- The history leads from one state of the store to another. -/
def Chained (store : S) : List (Event C R S) → S → Prop
  | [], store' => store = store'
  | e :: rest, store' => e.found = store ∧ Chained e.left rest store'

theorem Chained.append {store middle store' : S} {before after : List (Event C R S)}
    (h : Chained store before middle) (h' : Chained middle after store') :
    Chained store (before ++ after) store' := by
  induction before generalizing store with
  | nil =>
    obtain rfl : store = middle := h
    exact h'
  | cons e rest ih => exact ⟨h.1, ih h.2⟩

theorem Chained.split {store store' : S} {before after : List (Event C R S)}
    (h : Chained store (before ++ after) store') :
    ∃ middle, Chained store before middle ∧ Chained middle after store' := by
  induction before generalizing store with
  | nil => exact ⟨store, rfl, h⟩
  | cons e rest ih =>
    obtain ⟨middle, hbefore, hafter⟩ := ih h.2
    exact ⟨middle, ⟨h.1, hbefore⟩, hafter⟩

section Runs
variable {answers : S → C → R → S → Prop} {prog : Prog C R α} {store : S} {c : Config C R S α}

/-- **What a program says in a run** is what it says with those replies. -/
theorem Run.said (h : Run answers prog store c) : Reaches prog c.said c.prog := by
  induction h with
  | refl => exact .start
  | tail _ hstep ih =>
    cases hstep with
    | exchange command next found history reply left _ =>
      have htalk := ih.send reply
      rwa [Config.said, List.filterMap_append]
    | others prog found left history =>
      rw [Config.said, List.filterMap_append]
      show Reaches _ (List.filterMap Event.said history ++ []) _
      rw [List.append_nil]
      exact ih

theorem Run.chained (h : Run answers prog store c) : Chained store c.history c.store := by
  induction h with
  | refl => rfl
  | tail _ hstep ih =>
    cases hstep with
    | exchange command next found history reply left _ => exact ih.append ⟨rfl, rfl⟩
    | others prog found left history => exact ih.append ⟨rfl, rfl⟩

/-- Every command was answered as the store answers. -/
theorem Run.answered (h : Run answers prog store c) {e : Exchange C R S}
    (he : .exchange e ∈ c.history) : answers e.found e.command e.reply e.left := by
  induction h with
  | refl => cases he
  | tail _ hstep ih =>
    cases hstep with
    | exchange command next found history reply left hanswers =>
      rcases List.mem_append.mp he with he | he
      · exact ih he
      · obtain rfl := Event.exchange.inj (List.mem_singleton.mp he)
        exact hanswers
    | others prog found left history =>
      rcases List.mem_append.mp he with he | he
      · exact ih he
      · cases List.mem_singleton.mp he

/-- The program had said the commands before each command of its run, and was at that one. -/
theorem Run.at_exchange (h : Run answers prog store c) {before after : List (Event C R S)}
    {e : Exchange C R S} (hhistory : c.history = before ++ .exchange e :: after) :
    ∃ next, Reaches prog (before.filterMap Event.said) (.send e.command next) := by
  have hsaid := h.said
  have hsplit : c.said = before.filterMap Event.said ++
      (e.command, e.reply) :: after.filterMap Event.said := by
    rw [Config.said, hhistory, List.filterMap_append]
    rfl
  rw [hsplit] at hsaid
  exact hsaid.before

/-- An exchange of a run is something that its program said. -/
theorem Config.mem_said {e : Exchange C R S} (he : .exchange e ∈ c.history) :
    (e.command, e.reply) ∈ c.said := List.mem_filterMap.mpr ⟨_, he, rfl⟩

end Runs
end Interaction
