import PressLabz.ClientIp
import PressLabz.IpValue

/-! # One address, one identity

`normalizeAddress` of `client-ip.ts` knows one of the spellings of an address beside the plain
one, `::ffff:` before a dotted address.  Of every other spelling it makes another client:
`::ffff:7f00:1` is not `127.0.0.1`, and `2001:DB8::1` is not `2001:db8::1`
(`one_identity_iff`).
-/
namespace PressLabz
open Net

/-- The texts stand for one address, blanks around them apart. -/
def SameAddress (a b : String) : Prop :=
  (denotes (trim a)).isSome = true ∧ denotes (trim a) = denotes (trim b)

instance (a b : String) : Decidable (SameAddress a b) := inferInstanceAs (Decidable (_ ∧ _))

/-- A dotted address, alone or behind `::ffff:`. -/
def Dotted (text : String) : Prop :=
  isIPv4 (trim text).toList = true ∨ (mappedAddress (trim text).toList).isSome = true

/-- Two texts are written alike: both are dotted, or they are the same text but for blanks
around it. -/
def SameWriting (a b : String) : Prop := Dotted a ∧ Dotted b ∨ trim a = trim b

section Parsing
variable {a b text address : String}

/-- `ffff` in any case is the number of the mapped addresses. -/
theorem groupValue_ffff {a b c d : Char} (h : ∀ x ∈ [a, b, c, d], x = 'f' ∨ x = 'F') :
    isGroup [a, b, c, d] = true ∧ groupValue [a, b, c, d] = 0xffff := by
  have hvalue : ∀ x ∈ [a, b, c, d], hexDigitValue x = 15 := by
    intro x hx
    rcases h x hx with rfl | rfl
    · rfl
    · rfl
  constructor
  · rw [isGroup, Bool.and_eq_true, List.all_eq_true]
    exact ⟨by simp, isHexDigit_ffff h⟩
  · simp only [List.forall_mem_cons] at hvalue
    simp [groupValue, hvalue]

/-- Four numbers between dots are no IPv6 address. -/
theorem isIPv4_of_isDotted {dotted : List Char} (hdotted : isDotted dotted = true)
    (h : isIP (String.ofList dotted) ≠ 0) : isIPv4 dotted = true := by
  have h46 := isIP_ne_zero h
  rw [String.toList_ofList] at h46
  refine h46.resolve_right fun h6 => ?_
  have hchars := isDotted_chars hdotted
  have hcolon : ':' ∉ dotted := fun hmem => absurd (hchars _ hmem) (by decide)
  have hpercent : '%' ∉ dotted := fun hmem => absurd (hchars _ hmem) (by decide)
  have hgap : splitGap dotted = none := by
    by_contra hsome
    obtain ⟨⟨before, after⟩, hsome⟩ := Option.ne_none_iff_exists'.mp hsome
    rw [splitGap_eq hsome] at hcolon
    exact hcolon (by simp)
  rw [isIPv6, List.splitOn_eq_singleton hpercent] at h6
  simp only [isIPv6Groups, hgap, List.splitOn_eq_singleton hcolon, beq_iff_eq, groupCount] at h6
  split at h6
  · cases h6
  · split at h6
    · cases h6
    · cases h6

/-- What is accepted is a dotted address behind `::ffff:`, or the text itself. -/
theorem parseSingleAddress_cases (h : parseSingleAddress (some (.text text)) = some address) :
    (∃ dotted, mappedAddress (trim text).toList = some dotted ∧ isIPv4 dotted = true ∧
      address = String.ofList dotted) ∨
    mappedAddress (trim text).toList = none ∧ address = trim text := by
  have hvalid := parseSingleAddress_valid h
  have hnormal : address = normalizeAddress (some text) := by
    unfold parseSingleAddress at h
    simp only at h
    split at h
    · cases h
    · exact (Option.some.inj h).symm
  unfold normalizeAddress at hnormal
  simp only at hnormal
  split at hnormal
  · rw [hnormal] at hvalid
    exact absurd rfl hvalid
  · split at hnormal
    · rename_i dotted hmapped
      rw [hnormal] at hvalid
      exact .inl ⟨dotted, hmapped, isIPv4_of_isDotted (mappedAddress_eq hmapped).1 hvalid, hnormal⟩
    · exact .inr ⟨‹_›, hnormal⟩

/-- **A dotted address** has one form, which is the identity. -/
theorem parseSingleAddress_dotted (hdotted : Dotted text)
    (h : parseSingleAddress (some (.text text)) = some address) :
    isIPv4 address.toList = true ∧
      denotes (trim text) = some (.v4 (octets address.toList), []) := by
  rcases parseSingleAddress_cases h with ⟨dotted, hmapped, h4, rfl⟩ | ⟨hmapped, rfl⟩
  · obtain ⟨-, a, b, c, d, hhex, heq⟩ := mappedAddress_eq hmapped
    obtain ⟨hgroup, hvalue⟩ := groupValue_ffff hhex
    rw [String.toList_ofList]
    refine ⟨h4, ?_⟩
    have htext := congrArg String.ofList heq
    rw [String.ofList_toList] at htext
    rw [htext]
    exact denotes_mapped hgroup hvalue h4
  · have h4 : isIPv4 (trim text).toList = true :=
      hdotted.resolve_right (by simp [hmapped])
    exact ⟨h4, if_pos h4⟩

/-- **The identity of any other address** is its text. -/
theorem parseSingleAddress_other (hother : ¬ Dotted text)
    (h : parseSingleAddress (some (.text text)) = some address) :
    address = trim text ∧ ¬ isIPv4 address.toList = true := by
  rcases parseSingleAddress_cases h with ⟨dotted, hmapped, -, -⟩ | ⟨-, rfl⟩
  · exact absurd (.inr (by simp [hmapped])) hother
  · exact ⟨rfl, fun h4 => hother (.inl h4)⟩

theorem Dotted.congr (htrim : trim a = trim b) : Dotted a ↔ Dotted b := by
  rw [Dotted, Dotted, htrim]

/-- Of one address, the dotted writings have one identity and every other writing its own. -/
theorem identity_iff {x y : String} (ha : parseSingleAddress (some (.text a)) = some x)
    (hb : parseSingleAddress (some (.text b)) = some y) (hsame : SameAddress a b) :
    x = y ↔ SameWriting a b := by
  by_cases hda : Dotted a
  · obtain ⟨hx4, hx⟩ := parseSingleAddress_dotted hda ha
    by_cases hdb : Dotted b
    · obtain ⟨hy4, hy⟩ := parseSingleAddress_dotted hdb hb
      have hoctets : octets x.toList = octets y.toList := by
        have heq := hsame.2
        rw [hx, hy] at heq
        simpa using heq
      exact iff_of_true (String.toList_inj.mp (dotted_unique hx4 hy4 hoctets)) (.inl ⟨hda, hdb⟩)
    · obtain ⟨-, hy4⟩ := parseSingleAddress_other hdb hb
      refine iff_of_false (fun hxy => hy4 (hxy ▸ hx4)) ?_
      rintro (⟨-, hdotted⟩ | htrim)
      · exact hdb hdotted
      · exact hdb ((Dotted.congr htrim).mp hda)
  · obtain ⟨hx, hx4⟩ := parseSingleAddress_other hda ha
    by_cases hdb : Dotted b
    · obtain ⟨hy4, -⟩ := parseSingleAddress_dotted hdb hb
      refine iff_of_false (fun hxy => hx4 (hxy ▸ hy4)) ?_
      rintro (⟨hdotted, -⟩ | htrim)
      · exact hda hdotted
      · exact hda ((Dotted.congr htrim).mpr hdb)
    · obtain ⟨hy, -⟩ := parseSingleAddress_other hdb hb
      rw [hx, hy]
      exact ⟨.inr, fun h => h.resolve_left fun hboth => hda hboth.1⟩

end Parsing

/-! ## In the two modes -/

section Modes
variable {lib : ProxyAddr} {options : ClientIpOptions} {request : ClientRequest}
  {text address name : String}

/-- Behind a proxy, the header's address is the client's. -/
theorem resolve_header (hsource : options.source = .header)
    (hname : options.headerName = some name) (hne : name ≠ "")
    (htrusted : isTrustedPeer lib options (peerAddress lib options request) = true)
    (htext : request.headers name = some (.text text))
    (h : parseSingleAddress (some (.text text)) = some address) :
    resolve lib options request = .ok address := by
  unfold resolve
  simp [hsource, hname, hne, htrusted, htext, h]

/-- Behind a proxy, the client is the address where the walk ended. -/
theorem resolve_forwarded (hsource : options.source = .forwarded)
    (htrusted : isTrustedPeer lib options (peerAddress lib options request) = true)
    (hip : requestIp lib options request = some text)
    (h : parseSingleAddress (some (.text text)) = some address)
    (hclient : isTrustedPeer lib options address = false) :
    resolve lib options request = .ok address := by
  unfold resolve
  simp [hsource, htrusted, hip, h, hclient]

end Modes

/-- **When one address is one identity**: exactly when it is written dotted both times, or in the
same way. -/
theorem one_identity_iff {a b : String} (ha : parseSingleAddress (some (.text a)) ≠ none)
    (hb : parseSingleAddress (some (.text b)) ≠ none) (hsame : SameAddress a b) :
    (parseSingleAddress (some (.text a)) = parseSingleAddress (some (.text b)) ↔
      SameWriting a b) ∧
    (∀ (lib : ProxyAddr) (options : ClientIpOptions) (request request' : ClientRequest)
      (name : String), options.source = .header → options.headerName = some name → name ≠ "" →
      isTrustedPeer lib options (peerAddress lib options request) = true →
      isTrustedPeer lib options (peerAddress lib options request') = true →
      request.headers name = some (.text a) → request'.headers name = some (.text b) →
      (resolve lib options request = resolve lib options request' ↔ SameWriting a b)) ∧
    ∀ (lib : ProxyAddr) (options : ClientIpOptions) (request request' : ClientRequest),
      options.source = .forwarded →
      isTrustedPeer lib options (peerAddress lib options request) = true →
      isTrustedPeer lib options (peerAddress lib options request') = true →
      requestIp lib options request = some a → requestIp lib options request' = some b →
      (∀ address, parseSingleAddress (some (.text a)) = some address ∨
        parseSingleAddress (some (.text b)) = some address →
          isTrustedPeer lib options address = false) →
      (resolve lib options request = resolve lib options request' ↔ SameWriting a b) := by
  obtain ⟨x, hx⟩ := Option.ne_none_iff_exists'.mp ha
  obtain ⟨y, hy⟩ := Option.ne_none_iff_exists'.mp hb
  have hiff := identity_iff hx hy hsame
  refine ⟨?_, ?_, ?_⟩
  · rw [hx, hy, Option.some.injEq, hiff]
  · intro lib options request request' name hsource hname hne htrusted htrusted' htext htext'
    rw [resolve_header hsource hname hne htrusted htext hx,
      resolve_header hsource hname hne htrusted' htext' hy, Except.ok.injEq, hiff]
  · intro lib options request request' hsource htrusted htrusted' hip hip' hclient
    rw [resolve_forwarded hsource htrusted hip hx (hclient x (.inl hx)),
      resolve_forwarded hsource htrusted' hip' hy (hclient y (.inr hy)), Except.ok.injEq, hiff]

/-- The loopback address is one identity, plain and mapped. -/
theorem one_identity_loopback : parseSingleAddress (some (.text "127.0.0.1")) =
    parseSingleAddress (some (.text " ::FFFF:127.0.0.1")) :=
  (one_identity_iff (a := "127.0.0.1") (b := " ::FFFF:127.0.0.1") (by decide) (by decide)
    (by decide)).1.mpr (.inl ⟨.inl (by decide), .inr (by decide)⟩)

/-- The loopback address mapped in hexadecimal, and an address in capitals, are somebody else. -/
theorem two_identities :
    (SameAddress "127.0.0.1" "::ffff:7f00:1" ∧
      parseSingleAddress (some (.text "127.0.0.1")) = some "127.0.0.1" ∧
      parseSingleAddress (some (.text "::ffff:7f00:1")) = some "::ffff:7f00:1") ∧
    SameAddress "2001:db8::1" "2001:DB8:0::1" ∧
      parseSingleAddress (some (.text "2001:db8::1")) = some "2001:db8::1" ∧
      parseSingleAddress (some (.text "2001:DB8:0::1")) = some "2001:DB8:0::1" := by
  decide +kernel

end PressLabz
