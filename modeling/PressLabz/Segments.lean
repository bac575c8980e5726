import Mathlib.Data.List.Basic

/-! # A text in segments

A text that is kept as a list of nodes, each with a piece of it and a mark that all the
characters of the piece carry.  `spread` is the text itself, character by character; what
two lists of nodes say is the same when they spread to the same.  `Covers` says that one
node holds a whole range of the text, and is what an edit inherits its mark by.
-/
namespace Segments
variable {N α β : Type} (text : N → List α) (mark : N → β)

/-- The characters of a list of nodes, in order, each with its mark. -/
def spread (nodes : List N) : List (α × β) := nodes.flatMap fun n => (text n).map (·, mark n)

/-- Where a node begins. -/
def start (nodes : List N) (i : Nat) : Nat := ((nodes.take i).flatMap text).length

/-- The node at a position holds the range from `a` to `b`. -/
def Covers (nodes : List N) (i a b : Nat) : Prop :=
  ∃ n, nodes[i]? = some n ∧ start text nodes i ≤ a ∧ b ≤ start text nodes i + (text n).length

variable {text mark} {nodes rest : List N} {n : N} {i j a b k : Nat}

@[simp] theorem spread_nil : spread text mark [] = [] := rfl

@[simp] theorem spread_cons :
    spread text mark (n :: nodes) = (text n).map (·, mark n) ++ spread text mark nodes := rfl

@[simp] theorem spread_append :
    spread text mark (nodes ++ rest) = spread text mark nodes ++ spread text mark rest :=
  List.flatMap_append

/-- Spreading loses nothing of the text. -/
theorem spread_text : (spread text mark nodes).map Prod.fst = nodes.flatMap text := by
  induction nodes with
  | nil => rfl
  | cons n nodes ih => simp [ih, Function.comp_def]

theorem length_spread : (spread text mark nodes).length = (nodes.flatMap text).length := by
  have htext : (spread text mark nodes).map Prod.fst = nodes.flatMap text := spread_text
  rw [← htext, List.length_map]

@[simp] theorem start_zero : start text nodes 0 = 0 := rfl

@[simp] theorem start_succ :
    start text (n :: nodes) (i + 1) = (text n).length + start text nodes i := by
  simp [start]

@[simp] theorem covers_zero : Covers text (n :: nodes) 0 a b ↔ b ≤ (text n).length := by
  simp [Covers]

/-- A node further on holds a range exactly if it does so seen from behind the first one. -/
theorem covers_succ (h : (text n).length ≤ a) : Covers text (n :: nodes) (i + 1) a b ↔
    Covers text nodes i (a - (text n).length) (b - (text n).length) := by
  simp only [Covers, List.getElem?_cons_succ, start_succ]
  constructor
  · rintro ⟨x, hx, hfrom, hto⟩
    exact ⟨x, hx, by omega, by omega⟩
  · rintro ⟨x, hx, hfrom, hto⟩
    exact ⟨x, hx, by omega, by omega⟩

/-- A later node does not reach back into the first one. -/
theorem not_covers_succ (h : a < (text n).length) : ¬ Covers text (n :: nodes) (i + 1) a b := by
  rintro ⟨x, -, hfrom, -⟩
  rw [start_succ] at hfrom
  omega

/-- **The characters of a covered range** carry the mark of the node. -/
theorem spread_of_covers (h : Covers text nodes i a b) (hk : a ≤ k) (hkb : k < b) :
    ∃ n, nodes[i]? = some n ∧ ((spread text mark nodes)[k]?).map Prod.snd = some (mark n) := by
  induction nodes generalizing i a b k with
  | nil =>
    obtain ⟨n, hn, -⟩ := h
    cases hn
  | cons n nodes ih =>
    cases i with
    | zero =>
      have hlen : k < ((text n).map (·, mark n)).length := by
        rw [List.length_map]
        exact Nat.lt_of_lt_of_le hkb (covers_zero.mp h)
      refine ⟨n, rfl, ?_⟩
      rw [spread_cons, List.getElem?_append_left hlen, List.getElem?_map, Option.map_map]
      rw [List.length_map] at hlen
      rw [List.getElem?_eq_getElem hlen]
      rfl
    | succ i =>
      -- a later node covers nothing of the first one
      have hstart : (text n).length ≤ a := by
        by_contra hlt
        exact not_covers_succ (by omega) h
      obtain ⟨x, hx, hmark⟩ := ih ((covers_succ hstart).mp h)
        (Nat.sub_le_sub_right hk (text n).length) (by omega)
      refine ⟨x, hx, ?_⟩
      rw [spread_cons, List.getElem?_append_right (by rw [List.length_map]; omega),
        List.length_map]
      exact hmark

/-- A range that is not empty lies in one node at most. -/
theorem covers_unique (hab : a < b) (hi : Covers text nodes i a b) (hj : Covers text nodes j a b) :
    i = j := by
  induction nodes generalizing i j a b with
  | nil =>
    obtain ⟨n, hn, -⟩ := hi
    cases hn
  | cons n nodes ih =>
    -- the range begins in the first node, or after it
    by_cases hfirst : a < (text n).length
    · cases i with
      | succ i => exact absurd hi (not_covers_succ hfirst)
      | zero =>
        cases j with
        | succ j => exact absurd hj (not_covers_succ hfirst)
        | zero => rfl
    · cases i with
      | zero =>
        have := covers_zero.mp hi
        omega
      | succ i =>
        cases j with
        | zero =>
          have := covers_zero.mp hj
          omega
        | succ j =>
          rw [covers_succ (by omega)] at hi hj
          rw [ih (by omega) hi hj]

end Segments
