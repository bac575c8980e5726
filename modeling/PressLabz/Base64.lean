import Mathlib.Data.List.Basic

/-! # Base64

Bytes as digits of six bits, three bytes to four digits, and the two alphabets.  `btoa` pads
what it writes; `atob` leaves blanks out, takes the padding off where it is complete, and does
not look at the bits that are left over.  `url` writes the other alphabet, without padding;
the texts that it writes are those whose digits leave no bits over (`IsUrl`).
-/
namespace Base64

/-! ## Digits -/

/-- The digits of some bytes; what is short of three is filled up with zeros. -/
def sextets : List Nat → List Nat
  | a :: b :: c :: rest =>
    a / 4 :: (a % 4 * 16 + b / 16) :: (b % 16 * 4 + c / 64) :: c % 64 :: sextets rest
  | [a, b] => [a / 4, a % 4 * 16 + b / 16, b % 16 * 4]
  | [a] => [a / 4, a % 4 * 16]
  | [] => []

/-- The bytes of some digits; what is short of a byte is left out. -/
def octets : List Nat → List Nat
  | w :: x :: y :: z :: rest =>
    (w * 4 + x / 16) :: (x % 16 * 16 + y / 4) :: (y % 4 * 64 + z) :: octets rest
  | [w, x, y] => [w * 4 + x / 16, x % 16 * 16 + y / 4]
  | [w, x] => [w * 4 + x / 16]
  | [_] => []
  | [] => []

/-- The digits are those of whole bytes: what is left out are zeros. -/
def Flush : List Nat → Prop
  | _ :: _ :: _ :: _ :: rest => Flush rest
  | [_, _, y] => y % 4 = 0
  | [_, x] => x % 16 = 0
  | [_] => False
  | [] => True

section Digits
variable {bytes digits : List Nat}

theorem sextets_lt (h : ∀ b ∈ bytes, b < 256) : ∀ d ∈ sextets bytes, d < 64 := by
  fun_induction sextets bytes with
  | case1 a b c rest ih =>
    simp only [List.forall_mem_cons] at h ⊢
    exact ⟨by omega, by omega, by omega, by omega, ih h.2.2.2⟩
  | case2 a b =>
    simp only [List.forall_mem_cons] at h ⊢
    exact ⟨by omega, by omega, by omega, nofun⟩
  | case3 a =>
    simp only [List.forall_mem_cons] at h ⊢
    exact ⟨by omega, by omega, nofun⟩
  | case4 => exact nofun

theorem flush_sextets (bytes : List Nat) : Flush (sextets bytes) := by
  fun_induction sextets bytes with
  | case1 a b c rest ih => exact ih
  | case2 a b => exact Nat.mul_mod_left (b % 16) 4
  | case3 a => exact Nat.mul_mod_left (a % 4) 16
  | case4 => trivial

/-- **The bytes are read back** from their digits. -/
theorem octets_sextets (h : ∀ b ∈ bytes, b < 256) : octets (sextets bytes) = bytes := by
  fun_induction sextets bytes with
  | case1 a b c rest ih =>
    simp only [List.forall_mem_cons] at h
    rw [octets, ih h.2.2.2]
    congr 1
    · omega
    · congr 1
      · omega
      · congr 1
        omega
  | case2 a b =>
    simp only [List.forall_mem_cons] at h
    simp only [octets, List.cons.injEq, and_true]
    exact ⟨by omega, by omega⟩
  | case3 a =>
    simp only [List.forall_mem_cons] at h
    simp only [octets, List.cons.injEq, and_true]
    omega
  | case4 => rfl

/-- **Digits that leave no bits over** are those of their bytes. -/
theorem sextets_octets (h : ∀ d ∈ digits, d < 64) (hflush : Flush digits) :
    sextets (octets digits) = digits := by
  fun_induction octets digits with
  | case1 w x y z rest ih =>
    simp only [List.forall_mem_cons] at h
    rw [sextets, ih h.2.2.2.2 hflush]
    simp only [List.cons.injEq, and_true]
    exact ⟨by omega, by omega, by omega, by omega⟩
  | case2 w x y =>
    have hy : y % 4 = 0 := hflush
    simp only [List.forall_mem_cons] at h
    simp only [sextets, List.cons.injEq, and_true]
    exact ⟨by omega, by omega, by omega⟩
  | case3 w x =>
    have hx : x % 16 = 0 := hflush
    simp only [List.forall_mem_cons] at h
    simp only [sextets, List.cons.injEq, and_true]
    exact ⟨by omega, by omega⟩
  | case4 w => exact hflush.elim
  | case5 => rfl

theorem octets_lt (h : ∀ d ∈ digits, d < 64) : ∀ b ∈ octets digits, b < 256 := by
  fun_induction octets digits with
  | case1 w x y z rest ih =>
    simp only [List.forall_mem_cons] at h ⊢
    exact ⟨by omega, by omega, by omega, ih h.2.2.2.2⟩
  | case2 w x y =>
    simp only [List.forall_mem_cons] at h ⊢
    exact ⟨by omega, by omega, nofun⟩
  | case3 w x =>
    simp only [List.forall_mem_cons] at h ⊢
    exact ⟨by omega, nofun⟩
  | case4 | case5 => exact nofun

theorem Flush.length (h : Flush digits) : digits.length % 4 ≠ 1 := by
  fun_induction Flush digits with
  | case1 w x y z rest ih =>
    have hrest := ih h
    simp only [List.length_cons]
    omega
  | case2 w x y => exact (by decide : 3 % 4 ≠ 1)
  | case3 w x => exact (by decide : 2 % 4 ≠ 1)
  | case4 => exact h.elim
  | case5 => exact (by decide : 0 % 4 ≠ 1)

end Digits

/-! ## Alphabets -/

section Alphabet
variable (plus slash : Char)

/-- The character of a digit; the alphabets differ in the last two. -/
def charOf (n : Nat) : Char :=
  if n < 26 then Char.ofNat (n + 65)
  else if n < 52 then Char.ofNat (n + 71)
  else if n < 62 then Char.ofNat (n - 4)
  else if n = 62 then plus else slash

def valueOf (c : Char) : Option Nat :=
  if 65 ≤ c.toNat ∧ c.toNat ≤ 90 then some (c.toNat - 65)
  else if 97 ≤ c.toNat ∧ c.toNat ≤ 122 then some (c.toNat - 71)
  else if 48 ≤ c.toNat ∧ c.toNat ≤ 57 then some (c.toNat + 4)
  else if c = plus then some 62
  else if c = slash then some 63
  else none

def valuesOf : List Char → Option (List Nat)
  | [] => some []
  | c :: text =>
    match valueOf plus slash c, valuesOf text with
    | some n, some ns => some (n :: ns)
    | _, _ => none

end Alphabet

/-- The alphabet of base64, which ends in `+` and `/`. -/
abbrev standardChar : Nat → Char := charOf '+' '/'

abbrev urlChar : Nat → Char := charOf '-' '_'

/-! ## `btoa` and `atob` -/

/-- `btoa`, of a string of bytes. -/
def btoa (bytes : List Nat) : List Char :=
  (sextets bytes).map standardChar ++ List.replicate ((3 - bytes.length % 3) % 3) '='

def isBlank (c : Char) : Bool := c ∈ ['\t', '\n', '\x0c', '\r', ' ']

/-- `atob` takes the padding off, one or two characters, where it makes the text whole. -/
def unpad (text : List Char) : List Char :=
  if text.length % 4 = 0 then
    match text.reverse with
    | '=' :: '=' :: rest => rest.reverse
    | '=' :: rest => rest.reverse
    | _ => text
  else text

/-- `atob`. -/
def atob (text : List Char) : Option (List Nat) :=
  let data := unpad (text.filter fun c => !isBlank c)
  if data.length % 4 = 1 then none else (valuesOf '+' '/' data).map octets

/-! ## The other alphabet -/

/-- `base64url`. -/
def url (bytes : List Nat) : List Char := (sextets bytes).map urlChar

/-- A text in base64url, as it is written: the digits of some bytes and nothing else, and no
bits left over. -/
def IsUrl (text : List Char) : Prop :=
  ∃ digits, (∀ d ∈ digits, d < 64) ∧ Flush digits ∧ text = digits.map urlChar

/-- **The texts that `url` writes** are those that `IsUrl` describes. -/
theorem isUrl_iff {text : List Char} :
    IsUrl text ↔ ∃ bytes, (∀ b ∈ bytes, b < 256) ∧ text = url bytes := by
  constructor
  · rintro ⟨digits, hlt, hflush, rfl⟩
    exact ⟨octets digits, octets_lt hlt, by rw [url, sextets_octets hlt hflush]⟩
  · rintro ⟨bytes, hlt, rfl⟩
    exact ⟨sextets bytes, sextets_lt hlt, flush_sextets bytes, rfl⟩

/-! ## From one alphabet to the other -/

/-- `replaceAll('+', '-')` and `replaceAll('/', '_')`. -/
def toUrlChar (c : Char) : Char := if c = '+' then '-' else if c = '/' then '_' else c

/-- `replaceAll('-', '+')` and `replaceAll('_', '/')`. -/
def ofUrlChar (c : Char) : Char := if c = '-' then '+' else if c = '_' then '/' else c

theorem toUrlChar_standardChar : ∀ n < 64, toUrlChar (standardChar n) = urlChar n := by decide

theorem ofUrlChar_urlChar : ∀ n < 64, ofUrlChar (urlChar n) = standardChar n := by decide

theorem valueOf_standardChar : ∀ n < 64, valueOf '+' '/' (standardChar n) = some n := by decide

theorem standardChar_plain : ∀ n < 64, standardChar n ≠ '=' ∧ isBlank (standardChar n) = false := by
  decide

theorem urlChar_plain : ∀ n < 64, urlChar n ≠ '=' ∧ urlChar n ≠ '.' := by decide

theorem urlChar_ascii : ∀ n < 64, (urlChar n).toNat < 0x80 := by decide

theorem valuesOf_standard {digits : List Nat} (h : ∀ d ∈ digits, d < 64) :
    valuesOf '+' '/' (digits.map standardChar) = some digits := by
  induction digits with
  | nil => rfl
  | cons d digits ih =>
    rw [List.map_cons, valuesOf, valueOf_standardChar d (h d List.mem_cons_self),
      ih fun x hx => h x (List.mem_cons_of_mem _ hx)]

/-- A text that does not end in `=` has no padding to take off. -/
theorem unpad_eq {text : List Char} (h : '=' ∉ text) : unpad text = text := by
  rw [unpad]
  split
  · split
    · rename_i rest hreverse
      exact absurd (List.mem_reverse.mp (hreverse ▸ List.mem_cons_self)) h
    · rename_i rest _ hreverse
      exact absurd (List.mem_reverse.mp (hreverse ▸ List.mem_cons_self)) h
    · rfl
  · rfl

/-- **`atob` reads digits that leave no bits over.** -/
theorem atob_digits {digits : List Nat} (h : ∀ d ∈ digits, d < 64) (hflush : Flush digits) :
    atob (digits.map standardChar) = some (octets digits) := by
  have hplain : ∀ c ∈ digits.map standardChar, c ≠ '=' ∧ isBlank c = false := by
    intro c hc
    obtain ⟨d, hd, rfl⟩ := List.mem_map.mp hc
    exact standardChar_plain d (h d hd)
  have hfilter : (digits.map standardChar).filter (fun c => !isBlank c) = digits.map standardChar :=
    List.filter_eq_self.mpr fun c hc => by rw [(hplain c hc).2, Bool.not_false]
  rw [atob, hfilter, unpad_eq fun hmem => (hplain _ hmem).1 rfl]
  simp only [List.length_map, if_neg hflush.length, valuesOf_standard h, Option.map_some]

end Base64
