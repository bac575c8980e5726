import Mathlib.Data.List.Basic

/-! # Addresses, as text

`isIP` of `node:net`: the dotted IPv4 form, and the IPv6 form with its gap, its trailing
dotted part and its zone.  An address holds no character that `trim` takes off, and the
dotted part of an IPv4-mapped address is an address itself.
-/
namespace Net

/-! ## The two forms -/

/-- `25[0-5]|2[0-4]\d|1\d\d|[1-9]\d|\d`. -/
def isOctet (part : List Char) : Bool :=
  !part.isEmpty && part.all Char.isDigit && decide (part.length ≤ 3) &&
    (decide (part.length = 1) || part.head? != some '0') &&
    decide (part.foldl (fun n c => n * 10 + (c.toNat - 48)) 0 ≤ 255)

def isIPv4 (address : List Char) : Bool :=
  decide ((address.splitOn '.').length = 4) && (address.splitOn '.').all isOctet

def isHexDigit (c : Char) : Bool :=
  c.isDigit || decide ('a' ≤ c ∧ c ≤ 'f') || decide ('A' ≤ c ∧ c ≤ 'F')

/-- `[0-9a-fA-F]{1,4}`. -/
def isGroup (part : List Char) : Bool :=
  decide (1 ≤ part.length ∧ part.length ≤ 4) && part.all isHexDigit

/-- How many groups the parts stand for: a dotted part, which comes last, for two. -/
def groupCount : List (List Char) → Option Nat
  | [] => some 0
  | [last] => if isGroup last then some 1 else if isIPv4 last then some 2 else none
  | part :: rest => if isGroup part then (groupCount rest).map (· + 1) else none

/-- What is before and after the first `::`. -/
def splitGap : List Char → Option (List Char × List Char)
  | [] => none
  | ':' :: ':' :: rest => some ([], rest)
  | c :: rest => (splitGap rest).map fun (before, after) => (c :: before, after)

/-- The parts between colons; before or after a gap there may be none. -/
def parts (text : List Char) : List (List Char) :=
  if text = [] then [] else text.splitOn ':'

/-- An IPv6 address without its zone: eight groups, or a gap for at least one of them. -/
def isIPv6Groups (address : List Char) : Bool :=
  match splitGap address with
  | none => groupCount (address.splitOn ':') == some 8
  | some (before, after) =>
    (parts before).all isGroup &&
      (groupCount (parts after)).any fun n => decide ((parts before).length + n ≤ 7)

/-- `[0-9a-zA-Z-.:]`. -/
def isZoneChar (c : Char) : Bool := c.isAlphanum || c ∈ ['-', '.', ':']

def isIPv6 (address : List Char) : Bool :=
  match address.splitOn '%' with
  | [groups] => isIPv6Groups groups
  | [groups, zone] => isIPv6Groups groups && !zone.isEmpty && zone.all isZoneChar
  | _ => false

/-- The answer of `isIP`: four, six, or zero for what is no address. -/
def isIP (address : String) : Nat :=
  if isIPv4 address.toList then 4 else if isIPv6 address.toList then 6 else 0

example : isIP "203.0.113.42" = 4 := by decide
example : isIP "203.0.113.0/24" = 0 := by decide
example : isIP "2001:db8:cafe::42" = 6 := by decide

/-! ## Trimming -/

/-- White space and line terminators. -/
def isSpace (c : Char) : Bool :=
  c.toNat ∈ [9, 10, 11, 12, 13, 32, 0xa0, 0x1680, 0x2028, 0x2029, 0x202f, 0x205f, 0x3000, 0xfeff] ||
    decide (0x2000 ≤ c.toNat ∧ c.toNat ≤ 0x200a)

/-- `trim`. -/
def trim (text : String) : String :=
  String.ofList (((text.toList.dropWhile isSpace).reverse.dropWhile isSpace).reverse)

theorem trim_of_all {text : String} (h : ∀ c ∈ text.toList, isSpace c = false) :
    trim text = text := by
  have hdrop : ∀ l : List Char, (∀ c ∈ l, isSpace c = false) → l.dropWhile isSpace = l := by
    intro l hl
    cases l with
    | nil => rfl
    | cons c rest => rw [List.dropWhile_cons_of_neg (by simp [hl c List.mem_cons_self])]
  rw [trim, hdrop _ h, hdrop _ fun c hc => h c (List.mem_reverse.mp hc), List.reverse_reverse,
    String.ofList_toList]

/-! ## The characters of an address -/

/-- What an address is made of. -/
def isAddressChar (c : Char) : Bool := isZoneChar c || c == '%'

theorem isAlpha_iff (c : Char) : c.isAlpha = true ↔
    (65 ≤ c.toNat ∧ c.toNat ≤ 90) ∨ (97 ≤ c.toNat ∧ c.toNat ≤ 122) := by
  show (decide _ || (decide _ && decide _)) = true ↔ _
  rw [Bool.or_eq_true, Bool.and_eq_true, decide_eq_true_eq, decide_eq_true_eq, decide_eq_true_eq]
  exact Iff.rfl

theorem isSpace_eq_false {c : Char} (h : isAddressChar c = true) : isSpace c = false := by
  have hrange : 33 ≤ c.toNat ∧ c.toNat ≤ 122 := by
    simp only [isAddressChar, isZoneChar, Char.isAlphanum, isAlpha_iff, Char.isDigit,
      Bool.or_eq_true, Bool.and_eq_true, decide_eq_true_eq, beq_iff_eq, List.mem_cons,
      List.not_mem_nil, or_false, UInt32.le_iff_toNat_le, ge_iff_le] at h
    change ((((65 ≤ c.toNat ∧ c.toNat ≤ 90) ∨ (97 ≤ c.toNat ∧ c.toNat ≤ 122)) ∨
      (48 ≤ c.toNat ∧ c.toNat ≤ 57)) ∨ (c = '-' ∨ c = '.' ∨ c = ':')) ∨ c = '%' at h
    rcases h with ((h | h) | rfl | rfl | rfl) | rfl
    · omega
    · omega
    all_goals decide
  simp only [isSpace, List.mem_cons, List.not_mem_nil, or_false, Bool.or_eq_false_iff,
    decide_eq_false_iff_not]
  omega

theorem isAddressChar_of_isDigit {c : Char} (h : c.isDigit = true) : isAddressChar c = true := by
  simp [isAddressChar, isZoneChar, Char.isAlphanum, h]

theorem isAddressChar_of_isHexDigit {c : Char} (h : isHexDigit c = true) :
    isAddressChar c = true := by
  simp only [isHexDigit, Bool.or_eq_true, decide_eq_true_eq] at h
  rcases h with (h | h) | h
  · exact isAddressChar_of_isDigit h
  · have halpha : c.isAlpha = true :=
      (isAlpha_iff c).mpr (.inr ⟨h.1, Nat.le_trans h.2 (by decide)⟩)
    simp [isAddressChar, isZoneChar, Char.isAlphanum, halpha]
  · have halpha : c.isAlpha = true :=
      (isAlpha_iff c).mpr (.inl ⟨h.1, Nat.le_trans h.2 (by decide)⟩)
    simp [isAddressChar, isZoneChar, Char.isAlphanum, halpha]

/-- What holds of every part and of the separator holds of the whole. -/
theorem forall_of_splitOn {P : Char → Prop} {sep : Char} {l : List Char}
    (h : ∀ part ∈ l.splitOn sep, ∀ c ∈ part, P c) (hsep : P sep) : ∀ c ∈ l, P c := by
  have hwhole : [sep].intercalate (l.splitOn sep) = l := List.intercalate_splitOn sep
  rw [← hwhole]
  generalize l.splitOn sep = ls at h
  induction ls with
  | nil =>
    intro c hc
    cases hc
  | cons part rest ih =>
    cases rest with
    | nil => simpa using h
    | cons part' rest =>
      intro c hc
      rw [List.intercalate_cons_cons, List.append_assoc, List.mem_append, List.mem_append] at hc
      rcases hc with hc | hc | hc
      · exact h part List.mem_cons_self c hc
      · rwa [List.mem_singleton.mp hc]
      · exact ih (fun part'' hpart => h part'' (List.mem_cons_of_mem _ hpart)) c hc

theorem isGroup_chars {part : List Char} (h : isGroup part = true) :
    ∀ c ∈ part, isAddressChar c = true := by
  rw [isGroup, Bool.and_eq_true, List.all_eq_true] at h
  exact fun c hc => isAddressChar_of_isHexDigit (h.2 c hc)

theorem isOctet_digits {part : List Char} (h : isOctet part = true) :
    ∀ c ∈ part, c.isDigit = true := by
  simp only [isOctet, Bool.and_eq_true, List.all_eq_true] at h
  exact h.1.1.1.2

theorem isIPv4_digits {address : List Char} (h : isIPv4 address = true) :
    ∀ c ∈ address, c.isDigit = true ∨ c = '.' := by
  rw [isIPv4, Bool.and_eq_true, List.all_eq_true] at h
  exact forall_of_splitOn
    (fun part hpart c hc => .inl (isOctet_digits (h.2 part hpart) c hc)) (.inr rfl)

theorem isIPv4_chars {address : List Char} (h : isIPv4 address = true) :
    ∀ c ∈ address, isAddressChar c = true := by
  intro c hc
  rcases isIPv4_digits h c hc with hdigit | rfl
  · exact isAddressChar_of_isDigit hdigit
  · rfl

theorem groupCount_chars {ls : List (List Char)} {n : Nat} (h : groupCount ls = some n) :
    ∀ part ∈ ls, ∀ c ∈ part, isAddressChar c = true := by
  induction ls generalizing n with
  | nil =>
    intro part hpart
    cases hpart
  | cons part rest ih =>
    cases rest with
    | nil =>
      intro part' hpart
      rw [List.mem_singleton.mp hpart]
      rw [groupCount] at h
      split at h
      · exact isGroup_chars ‹_›
      · split at h
        · exact isIPv4_chars ‹_›
        · cases h
    | cons part' rest =>
      rw [groupCount] at h
      · split at h
        · obtain ⟨m, hm, -⟩ := Option.map_eq_some_iff.mp h
          intro part'' hpart
          rcases List.mem_cons.mp hpart with rfl | hpart
          · exact isGroup_chars ‹_›
          · exact ih hm part'' hpart
        · cases h
      · exact fun hnil => by cases hnil

theorem splitGap_eq {address before after : List Char}
    (h : splitGap address = some (before, after)) : address = before ++ ':' :: ':' :: after := by
  fun_induction splitGap address generalizing before after with
  | case1 => cases h
  | case2 rest =>
    cases h
    rfl
  | case3 c rest _ ih =>
    obtain ⟨⟨before', after'⟩, hgap, heq⟩ := Option.map_eq_some_iff.mp h
    cases heq
    rw [ih hgap]
    rfl

theorem parts_chars {text : List Char}
    (h : ∀ part ∈ parts text, ∀ c ∈ part, isAddressChar c = true) :
    ∀ c ∈ text, isAddressChar c = true := by
  rw [parts] at h
  split at h
  · rename_i hnil
    rw [hnil]
    intro c hc
    cases hc
  · exact forall_of_splitOn h rfl

theorem isIPv6Groups_chars {address : List Char} (h : isIPv6Groups address = true) :
    ∀ c ∈ address, isAddressChar c = true := by
  rw [isIPv6Groups] at h
  split at h
  · exact forall_of_splitOn (groupCount_chars (beq_iff_eq.mp h)) rfl
  · rename_i before after hgap
    rw [Bool.and_eq_true, List.all_eq_true, Option.any_eq_true] at h
    obtain ⟨hbefore, n, hafter, -⟩ := h
    rw [splitGap_eq hgap]
    intro c hc
    rcases List.mem_append.mp hc with hc | hc
    · exact parts_chars (fun part hpart => isGroup_chars (hbefore part hpart)) c hc
    · simp only [List.mem_cons] at hc
      rcases hc with rfl | rfl | hc
      · rfl
      · rfl
      · exact parts_chars (groupCount_chars hafter) c hc

theorem isIPv6_chars {address : List Char} (h : isIPv6 address = true) :
    ∀ c ∈ address, isAddressChar c = true := by
  refine forall_of_splitOn (fun part hpart => ?_) (show isAddressChar '%' = true from rfl)
  rw [isIPv6] at h
  split at h
  · rename_i groups hsplit
    rw [hsplit] at hpart
    rw [List.mem_singleton.mp hpart]
    exact isIPv6Groups_chars h
  · rename_i groups zone hsplit
    simp only [Bool.and_eq_true, List.all_eq_true] at h
    rw [hsplit] at hpart
    simp only [List.mem_cons, List.not_mem_nil, or_false] at hpart
    rcases hpart with rfl | rfl
    · exact isIPv6Groups_chars h.1.1
    · exact fun c hc => by rw [isAddressChar, h.2 c hc, Bool.true_or]
  · cases h

theorem isIP_ne_zero {address : String} (h : isIP address ≠ 0) :
    isIPv4 address.toList = true ∨ isIPv6 address.toList = true := by
  rw [isIP] at h
  split at h
  · exact .inl ‹_›
  · split at h
    · exact .inr ‹_›
    · exact absurd rfl h

/-- There is nothing to trim off an address. -/
theorem trim_of_isIP {address : String} (h : isIP address ≠ 0) : trim address = address := by
  refine trim_of_all fun c hc => isSpace_eq_false ?_
  rcases isIP_ne_zero h with h4 | h6
  · exact isIPv4_chars h4 c hc
  · exact isIPv6_chars h6 c hc

/-! ## Mapped addresses -/

/-- `\d{1,3}(?:\.\d{1,3}){3}`. -/
def isDotted (text : List Char) : Bool :=
  decide ((text.splitOn '.').length = 4) && (text.splitOn '.').all fun part =>
    decide (1 ≤ part.length ∧ part.length ≤ 3) && part.all Char.isDigit

theorem isDotted_chars {text : List Char} (h : isDotted text = true) :
    ∀ c ∈ text, c.isDigit = true ∨ c = '.' := by
  simp only [isDotted, Bool.and_eq_true, List.all_eq_true] at h
  exact forall_of_splitOn (fun part hpart c hc => .inl ((h.2 part hpart).2 c hc)) (.inr rfl)

theorem isGroup_dotted {text : List Char} (h : (text.splitOn '.').length = 4) :
    isGroup text = false := by
  have hdot : '.' ∈ text := by
    by_contra hnot
    rw [List.splitOn_eq_singleton hnot] at h
    cases h
  rw [← Bool.not_eq_true, isGroup, Bool.and_eq_true, List.all_eq_true]
  exact fun hall => absurd (hall.2 _ hdot) (by decide)

/-- The parts of a mapped address stand behind its gap. -/
theorem parts_mapped {hex dotted : List Char} (hhex : ∀ c ∈ hex, isHexDigit c = true)
    (hdotted : ':' ∉ dotted) : parts (hex ++ ':' :: dotted) = [hex, dotted] := by
  have hcolon : ':' ∉ hex := fun hmem => absurd (hhex _ hmem) (by decide)
  rw [parts, if_neg (by simp), List.splitOn_append_cons_self_of_not_mem hcolon,
    List.splitOn_eq_singleton hdotted]

/-- A mapped address has no zone. -/
theorem percent_mapped {hex dotted : List Char} (hhex : ∀ c ∈ hex, isHexDigit c = true)
    (hdotted : ∀ c ∈ dotted, c.isDigit = true ∨ c = '.') :
    '%' ∉ ':' :: ':' :: (hex ++ ':' :: dotted) := by
  simp only [List.mem_cons, List.mem_append, not_or]
  exact ⟨by decide, by decide, fun hmem => absurd (hhex _ hmem) (by decide), by decide,
    fun hmem => absurd (hdotted _ hmem) (by decide)⟩

/-- What an IPv4-mapped address maps is an address. -/
theorem isIPv4_of_mapped {hex dotted : List Char} (hhex : ∀ c ∈ hex, isHexDigit c = true)
    (hdotted : isDotted dotted = true)
    (h : isIPv6 (':' :: ':' :: (hex ++ ':' :: dotted)) = true) : isIPv4 dotted = true := by
  have hchars := isDotted_chars hdotted
  have hcolon : ':' ∉ dotted := fun hmem => absurd (hchars _ hmem) (by decide)
  have hgroup : isGroup dotted = false := by
    rw [isDotted, Bool.and_eq_true, decide_eq_true_eq] at hdotted
    exact isGroup_dotted hdotted.1
  rw [isIPv6, List.splitOn_eq_singleton (percent_mapped hhex hchars)] at h
  simp only [isIPv6Groups, splitGap, parts_mapped hhex hcolon, groupCount, hgroup,
    Bool.and_eq_true, Option.any_eq_true] at h
  obtain ⟨-, n, hcount, -⟩ := h
  by_contra hnot
  simp [hnot] at hcount

end Net
