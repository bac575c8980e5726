import Mathlib.Data.List.Basic
import Mathlib.Data.Char

/-! # Code units

Strings of 16-bit units, which need not be well formed, and the characters they stand for: a
high surrogate and a low one behind it are one character, and a surrogate without its other
half is replaced.  A text in ASCII is its own units, and the text of no other units
(`scalars_eq_ascii`).
-/
namespace Utf16

def isHigh (u : UInt16) : Bool := decide (0xD800 ≤ u.toNat ∧ u.toNat < 0xDC00)

def isLow (u : UInt16) : Bool := decide (0xDC00 ≤ u.toNat ∧ u.toNat < 0xE000)

/-- The character of a pair of surrogates. -/
def pair (high low : UInt16) : Char :=
  Char.ofNat (0x10000 + (high.toNat - 0xD800) * 0x400 + (low.toNat - 0xDC00))

/-- The character of a unit that is no surrogate. -/
def single (u : UInt16) : Char := Char.ofNat u.toNat

/-- The units of a character. -/
def unitsOf (c : Char) : List UInt16 :=
  if c.toNat < 0x10000 then [c.toNat.toUInt16]
  else [(0xD800 + (c.toNat - 0x10000) / 0x400).toUInt16,
    (0xDC00 + (c.toNat - 0x10000) % 0x400).toUInt16]

/-- The units of a text. -/
def textUnits (text : String) : List UInt16 := text.toList.flatMap unitsOf

/-- The character of a unit by itself: U+FFFD for half of a pair. -/
def lone (u : UInt16) : Char := if isHigh u || isLow u then '\uFFFD' else single u

/-- The characters of some units. -/
def scalars : List UInt16 → List Char
  | u :: v :: rest =>
    if isHigh u && isLow v then pair u v :: scalars rest else lone u :: scalars (v :: rest)
  | [u] => [lone u]
  | [] => []

/-- The units of a text in ASCII. -/
def ascii (text : List Char) : List UInt16 := text.map fun c => c.toNat.toUInt16

section Units
variable {u v : UInt16}

theorem toNat_toUInt16 {n : Nat} (h : n < 0x10000) : n.toUInt16.toNat = n := Nat.mod_eq_of_lt h

theorem toNat_ofNat {n : Nat} (h : n.isValidChar) : (Char.ofNat n).toNat = n := by
  rw [Char.ofNat, dif_pos h]
  rfl

theorem toNat_pair (hu : isHigh u = true) (hv : isLow v = true) :
    (pair u v).toNat = 0x10000 + (u.toNat - 0xD800) * 0x400 + (v.toNat - 0xDC00) := by
  rw [isHigh, decide_eq_true_eq] at hu
  rw [isLow, decide_eq_true_eq] at hv
  exact toNat_ofNat (.inr ⟨by omega, by omega⟩)

/-- **A pair of surrogates** is the units of its character. -/
theorem unitsOf_pair (hu : isHigh u = true) (hv : isLow v = true) : unitsOf (pair u v) = [u, v] := by
  have hpair := toNat_pair hu hv
  rw [isHigh, decide_eq_true_eq] at hu
  rw [isLow, decide_eq_true_eq] at hv
  have hplane : ¬ (pair u v).toNat < 0x10000 := by omega
  rw [unitsOf, if_neg hplane, hpair, List.cons.injEq, List.cons.injEq, ← UInt16.toNat_inj,
    ← UInt16.toNat_inj, toNat_toUInt16 (by omega), toNat_toUInt16 (by omega)]
  exact ⟨by omega, by omega, rfl⟩

theorem toNat_single (hu : (isHigh u || isLow u) = false) : (single u).toNat = u.toNat := by
  have hlt := u.toNat_lt
  simp only [isHigh, isLow, Bool.or_eq_false_iff, decide_eq_false_iff_not] at hu
  by_cases hlow : u.toNat < 0xD800
  · exact toNat_ofNat (.inl hlow)
  · exact toNat_ofNat (.inr ⟨by omega, by omega⟩)

theorem unitsOf_single (hu : (isHigh u || isLow u) = false) : unitsOf (single u) = [u] := by
  have hlt : u.toNat < 0x10000 := u.toNat_lt
  rw [unitsOf, toNat_single hu, if_pos hlt, List.cons.injEq, ← UInt16.toNat_inj,
    toNat_toUInt16 hlt]
  exact ⟨rfl, rfl⟩

end Units

/-! ## ASCII -/

section Ascii
variable {text : List Char} {units : List UInt16} {u : UInt16} {c : Char}

/-- A unit that stands for an ASCII character is that character. -/
theorem lone_ascii (h : (lone u).toNat < 0x80) : (lone u).toNat.toUInt16 = u := by
  cases hu : isHigh u || isLow u with
  | true =>
    rw [lone, if_pos hu] at h
    exact absurd h (by decide)
  | false =>
    have hlone : lone u = single u := by rw [lone, hu, if_neg Bool.false_ne_true]
    rw [hlone, toNat_single hu, ← UInt16.toNat_inj, toNat_toUInt16 u.toNat_lt]

/-- **Units whose text is in ASCII** are the characters, one by one. -/
theorem scalars_eq_ascii (h : ∀ c ∈ scalars units, c.toNat < 0x80) :
    units = ascii (scalars units) := by
  fun_induction scalars units with
  | case1 u v rest hpair ih =>
    rw [Bool.and_eq_true] at hpair
    have hlt := h _ List.mem_cons_self
    rw [toNat_pair hpair.1 hpair.2] at hlt
    omega
  | case2 u v rest hpair ih =>
    rw [List.forall_mem_cons] at h
    rw [ascii, List.map_cons, lone_ascii h.1]
    exact congrArg (u :: ·) (ih h.2)
  | case3 u =>
    rw [ascii, List.map_singleton, lone_ascii (h _ (List.mem_singleton_self _))]
  | case4 => rfl

theorem toNat_ascii (h : c.toNat < 0x80) : c.toNat.toUInt16.toNat = c.toNat :=
  toNat_toUInt16 (Nat.lt_trans h (by decide))

theorem plain_ascii (h : c.toNat < 0x80) :
    isHigh c.toNat.toUInt16 = false ∧ lone c.toNat.toUInt16 = c := by
  have hhigh : isHigh c.toNat.toUInt16 = false := by
    rw [isHigh, toNat_ascii h, decide_eq_false_iff_not]
    omega
  have hlow : isLow c.toNat.toUInt16 = false := by
    rw [isLow, toNat_ascii h, decide_eq_false_iff_not]
    omega
  refine ⟨hhigh, ?_⟩
  rw [lone, hhigh, hlow, Bool.or_self, if_neg Bool.false_ne_true, single, toNat_ascii h,
    Char.ofNat_toNat]

/-- **A text in ASCII** is read back from its units. -/
theorem scalars_ascii (h : ∀ c ∈ text, c.toNat < 0x80) : scalars (ascii text) = text := by
  induction text with
  | nil => rfl
  | cons c text ih =>
    obtain ⟨hc, htext⟩ := List.forall_mem_cons.mp h
    obtain ⟨hhigh, hlone⟩ := plain_ascii hc
    cases text with
    | nil =>
      show [lone _] = [c]
      rw [hlone]
    | cons d text =>
      have hnext := ih htext
      rw [ascii, List.map_cons, List.map_cons, scalars, hhigh, Bool.false_and,
        if_neg Bool.false_ne_true, hlone]
      exact congrArg (c :: ·) hnext

end Ascii
end Utf16
