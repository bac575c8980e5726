import Mathlib.Data.List.Induction
import PressLabz.IpAddress

/-! # Addresses, as numbers

What the text of an address stands for: the four numbers of a dotted address, or the eight of
an IPv6 address, whose gap stands for zeros and whose dotted part for two of them.  An
IPv4-mapped address stands for the address it maps.  Every text that `isIP` accepts stands for
an address (`denotes_isSome`); of the dotted ones no two stand for the same (`dotted_unique`).
-/
namespace Net

/-! ## Numbers -/

def octetValue (part : List Char) : Nat := part.foldl (fun n c => n * 10 + (c.toNat - 48)) 0

def hexDigitValue (c : Char) : Nat :=
  if c.isDigit then c.toNat - 48 else if 'a' ≤ c then c.toNat - 87 else c.toNat - 55

def groupValue (part : List Char) : Nat := part.foldl (fun n c => n * 16 + hexDigitValue c) 0

/-- The numbers of a dotted address. -/
def octets (text : List Char) : List Nat := (text.splitOn '.').map octetValue

/-- Two octets are one number of an IPv6 address. -/
def paired : List Nat → List Nat
  | high :: low :: rest => (high * 256 + low) :: paired rest
  | _ => []

/-- The numbers of the parts, of which the last may be dotted. -/
def groupValues : List (List Char) → Option (List Nat)
  | [] => some []
  | [last] =>
    if isGroup last then some [groupValue last]
    else if isIPv4 last then some (paired (octets last)) else none
  | part :: rest => if isGroup part then (groupValues rest).map (groupValue part :: ·) else none

/-- The eight numbers of an IPv6 address. -/
def ipv6Groups (address : List Char) : Option (List Nat) :=
  match splitGap address with
  | none => (groupValues (address.splitOn ':')).filter (·.length = 8)
  | some (before, after) =>
    if (parts before).all isGroup then
      ((groupValues (parts after)).filter fun last =>
        (parts before).length + last.length ≤ 7).map fun last =>
        (parts before).map groupValue ++
          (List.replicate (8 - ((parts before).length + last.length)) 0 ++ last)
    else none

/-! ## Addresses -/

inductive Address where
  | v4 (octets : List Nat)
  | v6 (groups : List Nat)
  deriving DecidableEq

/-- The octets that a number of an IPv6 address stands for. -/
def unpaired (n : Nat) : List Nat := [n / 256, n % 256]

/-- `::ffff:0:0/96` maps the IPv4 addresses. -/
def ofGroups : List Nat → Address
  | [0, 0, 0, 0, 0, 0xffff, high, low] => .v4 (unpaired high ++ unpaired low)
  | groups => .v6 groups

/-- The address of a text, with its zone, which is empty when there is none. -/
def denotes (text : String) : Option (Address × List Char) :=
  if isIPv4 text.toList then some (.v4 (octets text.toList), [])
  else
    match text.toList.splitOn '%' with
    | [groups] => (ipv6Groups groups).map fun ns => (ofGroups ns, [])
    | [groups, zone] =>
      if !zone.isEmpty && zone.all isZoneChar then
        (ipv6Groups groups).map fun ns => (ofGroups ns, zone)
      else none
    | _ => none

example : denotes "::ffff:7f00:1" = denotes "127.0.0.1" := by decide
example : denotes "2001:DB8::1" = denotes "2001:db8:0:0:0:0:0:1" := by decide
example : denotes "::1" ≠ denotes "::1%eth0" := by decide

/-! ## What is accepted stands for an address -/

theorem octets_length {text : List Char} (h : isIPv4 text = true) : (octets text).length = 4 := by
  rw [isIPv4, Bool.and_eq_true, decide_eq_true_eq] at h
  rw [octets, List.length_map, h.1]

theorem octets_le {text : List Char} (h : isIPv4 text = true) : ∀ n ∈ octets text, n ≤ 255 := by
  intro n hn
  obtain ⟨part, hpart, rfl⟩ := List.mem_map.mp hn
  rw [isIPv4, Bool.and_eq_true, List.all_eq_true] at h
  have hoctet := h.2 part hpart
  simp only [isOctet, Bool.and_eq_true, decide_eq_true_eq] at hoctet
  exact hoctet.2

theorem paired_length {text : List Char} (h : isIPv4 text = true) :
    (paired (octets text)).length = 2 := by
  obtain ⟨a, b, c, d, habcd⟩ := List.length_eq_four.mp (octets_length h)
  rw [habcd]
  rfl

/-- The count of the groups is the count of their numbers. -/
theorem groupCount_eq (ls : List (List Char)) :
    groupCount ls = (groupValues ls).map List.length := by
  induction ls with
  | nil => rfl
  | cons part rest ih =>
    cases rest with
    | nil =>
      rw [groupCount, groupValues]
      split
      · rfl
      · split
        · rename_i hdotted
          rw [Option.map_some, paired_length hdotted]
        · rfl
    | cons part' rest =>
      rw [groupCount, groupValues]
      · split
        · rw [ih, Option.map_map, Option.map_map]
          rfl
        · rfl
      · exact fun hnil => by cases hnil
      · exact fun hnil => by cases hnil

theorem ipv6Groups_isSome {address : List Char} (h : isIPv6Groups address = true) :
    (ipv6Groups address).isSome = true := by
  unfold isIPv6Groups at h
  unfold ipv6Groups
  rcases hgap : splitGap address with _ | ⟨before, after⟩
  · rw [hgap] at h
    dsimp only at h ⊢
    rw [beq_iff_eq, groupCount_eq, Option.map_eq_some_iff] at h
    obtain ⟨ns, hns, hlength⟩ := h
    simp [hns, hlength]
  · rw [hgap] at h
    dsimp only at h ⊢
    rw [Bool.and_eq_true, Option.any_eq_true] at h
    obtain ⟨hbefore, n, hcount, hroom⟩ := h
    rw [groupCount_eq, Option.map_eq_some_iff] at hcount
    obtain ⟨ns, hns, rfl⟩ := hcount
    simp [hbefore, hns, of_decide_eq_true hroom]

/-- An IPv6 address is its groups, or they and a zone. -/
theorem isIPv6_cases {address : List Char} (h : isIPv6 address = true) :
    ∃ groups, isIPv6Groups groups = true ∧ (address.splitOn '%' = [groups] ∨
      ∃ zone, address.splitOn '%' = [groups, zone] ∧
        (!zone.isEmpty && zone.all isZoneChar) = true) := by
  rw [isIPv6] at h
  split at h
  · rename_i groups hsplit
    exact ⟨groups, h, .inl hsplit⟩
  · rename_i groups zone hsplit
    rw [Bool.and_assoc, Bool.and_eq_true] at h
    exact ⟨groups, h.1, .inr ⟨zone, hsplit, h.2⟩⟩
  · cases h

/-- **What `isIP` accepts stands for an address.** -/
theorem denotes_isSome {text : String} (h : isIP text ≠ 0) : (denotes text).isSome = true := by
  by_cases h4 : isIPv4 text.toList = true
  · rw [denotes, if_pos h4]
    rfl
  · have h6 : isIPv6 text.toList = true := (isIP_ne_zero h).resolve_left h4
    rw [denotes, if_neg h4]
    obtain ⟨groups, hgroups, hsplit | ⟨zone, hsplit, hzone⟩⟩ := isIPv6_cases h6
    · rw [hsplit]
      simpa using ipv6Groups_isSome hgroups
    · rw [hsplit]
      simpa [hzone] using ipv6Groups_isSome hgroups

/-! ## Dotted addresses -/

theorem octetValue_append (part : List Char) (c : Char) :
    octetValue (part ++ [c]) = octetValue part * 10 + (c.toNat - 48) := by
  rw [octetValue, List.foldl_append]
  rfl

theorem isDigit_iff (c : Char) : c.isDigit = true ↔ 48 ≤ c.toNat ∧ c.toNat ≤ 57 := by
  rw [Char.isDigit, Bool.and_eq_true, decide_eq_true_eq, decide_eq_true_eq]
  exact Iff.rfl

/-- A number that is written without a leading zero is not zero. -/
theorem octetValue_pos {part : List Char} (hdigits : ∀ c ∈ part, c.isDigit = true)
    (hne : part ≠ []) (hhead : part.head? ≠ some '0') : 0 < octetValue part := by
  induction part using List.reverseRecOn with
  | nil => exact absurd rfl hne
  | append_singleton part c ih =>
    rw [octetValue_append]
    cases part with
    | nil =>
      have hc := (isDigit_iff c).mp (hdigits c (by simp))
      have hzero : c.toNat ≠ 48 := fun h => hhead (congrArg some (Char.toNat_inj.mp h))
      omega
    | cons first rest =>
      have hpos := ih (fun d hd => hdigits d (List.mem_append_left _ hd)) (by simp) hhead
      omega

/-- Without leading zeros a number is written in one way. -/
theorem octetValue_unique {p q : List Char} (hp : ∀ c ∈ p, c.isDigit = true)
    (hq : ∀ c ∈ q, c.isDigit = true) (hp0 : p.head? ≠ some '0') (hq0 : q.head? ≠ some '0')
    (h : octetValue p = octetValue q) : p = q := by
  induction p using List.reverseRecOn generalizing q with
  | nil =>
    by_contra hne
    have hpos := octetValue_pos hq (Ne.symm hne) hq0
    rw [← h] at hpos
    exact absurd hpos (by decide)
  | append_singleton p c ih =>
    cases q using List.reverseRecOn with
    | nil =>
      have hpos := octetValue_pos hp (by simp) hp0
      rw [h] at hpos
      exact absurd hpos (by decide)
    | append_singleton q d =>
      rw [octetValue_append, octetValue_append] at h
      have hc := (isDigit_iff c).mp (hp c (by simp))
      have hd := (isDigit_iff d).mp (hq d (by simp))
      have hcd : c = d := Char.toNat_inj.mp (by omega)
      have hhead {l : List Char} {x : Char} (hl : (l ++ [x]).head? ≠ some '0') :
          l.head? ≠ some '0' := by
        cases l with
        | nil => exact fun hnone => by cases hnone
        | cons y l => exact hl
      rw [hcd, ih (fun x hx => hp x (List.mem_append_left _ hx))
        (fun x hx => hq x (List.mem_append_left _ hx)) (hhead hp0) (hhead hq0) (by omega)]

theorem isOctet_form {part : List Char} (h : isOctet part = true) :
    part = ['0'] ∨ part ≠ [] ∧ part.head? ≠ some '0' := by
  simp only [isOctet, Bool.and_eq_true, Bool.or_eq_true, decide_eq_true_eq, bne_iff_ne,
    Bool.not_eq_true', List.isEmpty_eq_false_iff] at h
  obtain ⟨⟨⟨⟨hne, -⟩, -⟩, hhead⟩, -⟩ := h
  rcases hhead with hlength | hhead
  · obtain ⟨c, rfl⟩ := List.length_eq_one_iff.mp hlength
    by_cases hc : c = '0'
    · exact .inl (by rw [hc])
    · exact .inr ⟨hne, fun hzero => hc (Option.some.inj hzero)⟩
  · exact .inr ⟨hne, hhead⟩

/-- An octet is written in one way. -/
theorem octetValue_injective {p q : List Char} (hp : isOctet p = true) (hq : isOctet q = true)
    (h : octetValue p = octetValue q) : p = q := by
  rcases isOctet_form hp with rfl | ⟨hpne, hphead⟩
  · rcases isOctet_form hq with rfl | ⟨hqne, hqhead⟩
    · rfl
    · exact absurd h (Nat.ne_of_lt (octetValue_pos (isOctet_digits hq) hqne hqhead))
  · rcases isOctet_form hq with rfl | ⟨-, hqhead⟩
    · exact absurd h.symm (Nat.ne_of_lt (octetValue_pos (isOctet_digits hp) hpne hphead))
    · exact octetValue_unique (isOctet_digits hp) (isOctet_digits hq) hphead hqhead h

theorem map_octetValue_injective {ps qs : List (List Char)} (hp : ∀ p ∈ ps, isOctet p = true)
    (hq : ∀ q ∈ qs, isOctet q = true) (h : ps.map octetValue = qs.map octetValue) : ps = qs := by
  induction ps generalizing qs with
  | nil => exact (List.map_eq_nil_iff.mp h.symm).symm
  | cons p ps ih =>
    cases qs with
    | nil => cases h
    | cons q qs =>
      obtain ⟨hhead, htail⟩ := List.cons.inj h
      rw [octetValue_injective (hp p List.mem_cons_self) (hq q List.mem_cons_self) hhead,
        ih (fun x hx => hp x (List.mem_cons_of_mem _ hx))
          (fun x hx => hq x (List.mem_cons_of_mem _ hx)) htail]

/-- **A dotted address is written in one way.** -/
theorem dotted_unique {a b : List Char} (ha : isIPv4 a = true) (hb : isIPv4 b = true)
    (h : octets a = octets b) : a = b := by
  rw [isIPv4, Bool.and_eq_true, List.all_eq_true] at ha hb
  have hparts := map_octetValue_injective ha.2 hb.2 h
  have hwhole : ['.'].intercalate (a.splitOn '.') = a := List.intercalate_splitOn '.'
  rw [← hwhole, hparts, List.intercalate_splitOn]

/-! ## Mapped addresses -/

theorem unpaired_pair {high low : Nat} (h : low ≤ 255) :
    unpaired (high * 256 + low) = [high, low] := by
  have hhigh : (high * 256 + low) / 256 = high := by omega
  have hlow : (high * 256 + low) % 256 = low := by omega
  rw [unpaired, hhigh, hlow]

/-- The octets behind five zeros and `ffff` are the address that is mapped. -/
theorem ofGroups_mapped {dotted : List Char} (h : isIPv4 dotted = true) :
    ofGroups (0 :: 0 :: 0 :: 0 :: 0 :: 0xffff :: paired (octets dotted)) = .v4 (octets dotted) := by
  obtain ⟨a, b, c, d, habcd⟩ := List.length_eq_four.mp (octets_length h)
  have hle := octets_le h
  rw [habcd] at hle ⊢
  have hb : b ≤ 255 := hle b (by simp)
  have hd : d ≤ 255 := hle d (by simp)
  show Address.v4 (unpaired (a * 256 + b) ++ unpaired (c * 256 + d)) = _
  rw [unpaired_pair hb, unpaired_pair hd]
  rfl

/-- **An IPv4-mapped address stands for the address it maps.** -/
theorem denotes_mapped {hex dotted : List Char} (hhex : isGroup hex = true)
    (hffff : groupValue hex = 0xffff) (hdotted : isIPv4 dotted = true) :
    denotes (String.ofList (':' :: ':' :: (hex ++ ':' :: dotted))) =
      some (.v4 (octets dotted), []) := by
  have hdigits : ∀ c ∈ hex, isHexDigit c = true := by
    rw [isGroup, Bool.and_eq_true, List.all_eq_true] at hhex
    exact hhex.2
  have hchars := isIPv4_digits hdotted
  have hcolon : ':' ∉ dotted := fun hmem => absurd (hchars _ hmem) (by decide)
  have hgroup : isGroup dotted = false := by
    rw [isIPv4, Bool.and_eq_true, decide_eq_true_eq] at hdotted
    exact isGroup_dotted hdotted.1
  have h4 : ¬ isIPv4 (':' :: ':' :: (hex ++ ':' :: dotted)) = true := fun h4 =>
    absurd (isIPv4_digits h4 ':' List.mem_cons_self) (by decide)
  have hgroups : ipv6Groups (':' :: ':' :: (hex ++ ':' :: dotted)) =
      some (0 :: 0 :: 0 :: 0 :: 0 :: 0xffff :: paired (octets dotted)) := by
    have hbefore : parts [] = [] := rfl
    have hafter : groupValues (parts (hex ++ ':' :: dotted)) =
        some (0xffff :: paired (octets dotted)) := by
      rw [parts_mapped hdigits hcolon, groupValues, if_pos hhex, groupValues, if_neg (by simp [hgroup]),
        if_pos hdotted, hffff, Option.map_some]
      exact fun hnil => by cases hnil
    simp [ipv6Groups, splitGap, hbefore, hafter, paired_length hdotted]
  rw [denotes, String.toList_ofList, if_neg h4,
    List.splitOn_eq_singleton (percent_mapped hdigits hchars)]
  simp only [hgroups, Option.map_some, ofGroups_mapped hdotted]

end Net
